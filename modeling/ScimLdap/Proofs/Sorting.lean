import Mathlib
import ScimLdap.Proofs.Canonical
import ScimLdap.Proofs.Requests
import ScimLdap.Proofs.Respelling

/-!
# Sorting — an attribute is the same to sorting and to filtering

A path comes in at two doors. As the parameter to sort by it is a bare name, cut at its first separator; in a
filter it is read token by token. And it is answered from two places, the tables for sorting and the visitors
made of them for filters. `searchFilter_pr_eq` says that what is behind the doors is one thing: to ask that
users have an attribute is to ask for it by the name that they would be sorted by, errors included.

The two readings meet in the path itself. Either of its texts is read back by `AttrPath.ofLogical`, because a
name holds no separator, and scans as tokens that spell it, because none goes on over one.
-/

namespace ScimLdap

open Text (Stops stops_cons)

/-! ## The texts of a path -/

namespace AttrPath

/-- A text of the path: a name, or two with a colon or a point between them. -/
def IsText (p : AttrPath) (text : String) : Prop :=
  text = p.render ∨ text = p.logicalName

end AttrPath

namespace Text

variable {isSep : Char → Bool} {front rest : List Char} {c : Char}

theorem splitOnce_of_none (h : ∀ d ∈ front, isSep d = false) : splitOnce isSep front = (front, none) := by
  induction front with
  | nil => rfl
  | cons d front ih =>
    rw [splitOnce, h d List.mem_cons_self, ih fun e he => h e (List.mem_cons_of_mem d he)]
    rfl

theorem splitOnce_append (h : ∀ d ∈ front, isSep d = false) (hc : isSep c = true) :
    splitOnce isSep (front ++ c :: rest) = (front, some rest) := by
  induction front with
  | nil => rw [List.nil_append, splitOnce, if_pos hc]
  | cons d front ih =>
    rw [List.cons_append, splitOnce, h d List.mem_cons_self,
      ih fun e he => h e (List.mem_cons_of_mem d he)]
    rfl

end Text

namespace Filter

variable {options : Options} {caseSensitive : Bool} {p : AttrPath} {text attr sub : String}

theorem IsWord.isWordChar {w : List Char} (h : IsWord w) : ∀ c ∈ w, isWordChar c = true := by
  obtain ⟨d, ds, rfl, hd, hds⟩ := h
  intro c hc
  rcases List.mem_cons.mp hc with rfl | hc
  · exact isWordChar_of_isAlpha hd
  · exact isWordChar_iff.mpr (hds c hc)

theorem isSeparator_of_isName (h : IsName caseSensitive attr) :
    ∀ c ∈ attr.toList, AttrPath.isSeparator c = false := by
  intro c hc
  have hword := h.1.isWordChar c hc
  cases hsep : AttrPath.isSeparator c with
  | false => rfl
  | true =>
    simp only [AttrPath.isSeparator, Bool.or_eq_true, beq_iff_eq] at hsep
    rcases hsep with rfl | rfl <;> exact absurd hword (by decide)

/-- The characters of a path's text are those of names, and separators. -/
theorem mem_text (hp : p.Writable caseSensitive) (htext : p.IsText text) :
    ∀ c ∈ text.toList, isWordChar c = true ∨ AttrPath.isSeparator c = true := by
  obtain ⟨attr, sub⟩ := p
  have hattr := hp.1.1.isWordChar
  cases sub with
  | none =>
    have heq : text = attr := htext.elim id id
    intro c hc
    rw [heq] at hc
    exact .inl (hattr c hc)
  | some sub =>
    have hsub := (hp.2 sub rfl).1.isWordChar
    intro c hc
    rcases htext with rfl | rfl
    all_goals
      simp only [AttrPath.render, AttrPath.logicalName, String.toList_append, List.mem_append] at hc
      rcases hc with (hc | hc) | hc
      · exact .inl (hattr c hc)
      · cases List.mem_singleton.mp hc
        exact .inr rfl
      · exact .inl (hsub c hc)

theorem isBlank_text (hp : p.Writable caseSensitive) (htext : p.IsText text) :
    ∀ c ∈ text.toList, Text.isBlank c = false := by
  intro c hc
  rcases mem_text hp htext c hc with hword | hsep
  · obtain ⟨hlo, hhi⟩ := ascii_of_isWordChar hword
    exact isBlank_eq_false_of_ascii hlo hhi
  · simp only [AttrPath.isSeparator, Bool.or_eq_true, beq_iff_eq] at hsep
    rcases hsep with rfl | rfl <;> decide

theorem text_ne_nil (hp : p.Writable caseSensitive) (htext : p.IsText text) : text.toList ≠ [] := by
  obtain ⟨attr, sub⟩ := p
  obtain ⟨c, cs, hattr, -, -⟩ := hp.1.1
  rcases htext with rfl | rfl <;> cases sub <;>
    simp [AttrPath.render, AttrPath.logicalName, hattr]

theorem isBlankText_text (hp : p.Writable caseSensitive) (htext : p.IsText text) :
    Text.isBlankText text = false := by
  obtain ⟨c, cs, hcs⟩ := List.exists_cons_of_ne_nil (text_ne_nil hp htext)
  have hc := isBlank_text hp htext c (by rw [hcs]; exact List.mem_cons_self)
  rw [Text.isBlankText, hcs, List.all_cons, hc]
  rfl

/-- As a bare name, either text of a path stands for the path. -/
theorem ofLogical_text (hp : p.Writable caseSensitive) (htext : p.IsText text) :
    AttrPath.ofLogical text = p := by
  obtain ⟨attr, sub⟩ := p
  have hattr := isSeparator_of_isName hp.1
  cases sub with
  | none =>
    have heq : text = attr := htext.elim id id
    rw [heq, AttrPath.ofLogical, Text.splitOnce_of_none hattr]
    simp
  | some sub =>
    have hsplit : ∃ c, AttrPath.isSeparator c = true ∧ text.toList = attr.toList ++ c :: sub.toList := by
      rcases htext with rfl | rfl
      · exact ⟨':', rfl, by simp [AttrPath.render]⟩
      · exact ⟨'.', rfl, by simp [AttrPath.logicalName]⟩
    obtain ⟨c, hc, htext⟩ := hsplit
    rw [AttrPath.ofLogical, htext, Text.splitOnce_append hattr hc]
    simp

/-! ## The texts scan as the path -/

/-- A name ends where a character stands that is none of a word, also at a point, which could go on in a
    number. -/
theorem scans_name_append {c : Char} {cs : List Char} {P : List Token → Prop}
    (h : IsName options.keywordsCaseSensitive attr) (hc : isWordChar c = false)
    (hrest : Scans options (c :: cs) P) :
    Scans options (attr.toList ++ c :: cs)
      (fun ts => ∃ t us, ts = t :: us ∧ t.kind = .name ∧ t.text = attr ∧ P us) := by
  intro position rest hr
  obtain ⟨d, ds, hattr, -, -⟩ := h.1
  have hword : IsWord (d :: ds) := hattr ▸ h.1
  have hname : TokenKind.ofWord options attr = .name := ofWord_eq_name_iff.mpr h.2
  have hlexeme : lexeme options position d (ds ++ (c :: cs ++ rest)) =
      .ok ⟨.name, d :: ds, c :: cs ++ rest⟩ := by
    have hstops : Stops isWordChar (c :: cs ++ rest) := stops_cons hc (cs ++ rest)
    rw [lexeme_word rfl hword hstops, ← hattr, String.ofList_toList, hname]
  obtain ⟨us, hus, hp⟩ := hrest (position + Text.width (d :: ds)) rest hr
  refine ⟨⟨.name, attr, position⟩ :: us, ?_, _, us, rfl, rfl, rfl, hp⟩
  rw [List.append_assoc, hattr, List.cons_append, scanTokens_lexeme hlexeme]
  simp only
  rw [hus, ← hattr, String.ofList_toList, Text.width_append, ← Nat.add_assoc]
  exact map_append_map_append [_] us _

theorem scans_qualified {c : Char} {kind : TokenKind} (hkind : kind = .colon ∨ kind = .dot)
    (hc : punctuation? c = some kind) (hword : isWordChar c = false)
    (hattr : IsName options.keywordsCaseSensitive attr) (hsub : IsName options.keywordsCaseSensitive sub) :
    Scans options (attr.toList ++ c :: sub.toList) (SpellsPath · ⟨attr, some sub⟩) := by
  have hall := scans_name_append hattr hword ((scans_name hsub).sign hc)
  apply hall.imp
  rintro ts ⟨t, _, rfl, ht, rfl, s, _, rfl, hs, u, rfl, hu, rfl⟩
  exact .qualified ht (hs ▸ hkind) hu

theorem scans_text (hp : p.Writable options.keywordsCaseSensitive) (htext : p.IsText text) :
    Scans options text.toList (SpellsPath · p) := by
  rcases htext with rfl | rfl
  · exact scans_path hp
  · obtain ⟨attr, sub⟩ := p
    cases sub with
    | none => exact scans_path hp
    | some sub =>
      have hscan := scans_qualified (c := '.') (.inr rfl) rfl (by decide) hp.1 (hp.2 sub rfl)
      simpa [AttrPath.logicalName] using hscan

/-- The text of a path with `pr` after it is read as the question for the path, however it is written. -/
theorem parse_pr (hp : p.Writable options.keywordsCaseSensitive) (htext : p.IsText text)
    (hlen : (text ++ " pr").utf8ByteSize ≤ options.maxLength) :
    parse options (text ++ " pr") = .ok (.present p) := by
  have hpr : Scans options "pr".toList (fun ts => ∃ t, ts = [t] ∧ t.kind = .present) :=
    scans_keyword (isWord_of_all (by decide) (by decide)) (by decide +kernel) rfl
  have hscan := (scans_text hp htext).append (by decide) hpr.blank
  have hchars : (text ++ " pr").toList = text.toList ++ ' ' :: "pr".toList := by simp
  rw [← hchars] at hscan
  obtain ⟨ts, htok, us, _, rfl, hus, t, rfl, ht⟩ := hscan.tokenize hlen
  have hspells : Spells (us ++ [t]) (.present p) := .present hus ht
  rw [parse, htok]
  refine parseTokens_eq_ok_iff.mpr ⟨terminated_append_eof _ rfl, .present p, Nat.zero_le _, ?_⟩
  rwa [beforeEnd_append_eof hspells.not_eof rfl]

end Filter

/-! ## One answer from two places -/

namespace Search.Builder

open Ldap (SearchFilter)

variable {b : Builder} {table : Mapping.Table} {p : AttrPath} {text : String}

/-- By a path's text users are sorted by the attribute that their table has for the path. -/
theorem sortAttribute_text (htable : b.filters.mappings.get? .user = some table)
    (hp : p.Writable b.filters.options.keywordsCaseSensitive) (htext : p.IsText text) :
    b.sortAttribute .user (some text) = ((table.resolve p).mapError .unmapped).map (·.name) := by
  have hname : ((Text.nonBlank? (some text)).map Text.trim).getD b.paging.defaultSortBy = text := by
    rw [Text.nonBlank?_some (Filter.isBlankText_text hp htext), Option.map_some, Option.getD_some,
      Text.trim_eq_self (Filter.isBlank_text hp htext)]
  simp only [sortAttribute, hname, htable]
  rw [Mapping.Table.resolveName, Filter.ofLogical_text hp htext]

/-- It fails only where the table has nothing for the path. -/
theorem sortAttribute_text_error (htable : b.filters.mappings.get? .user = some table)
    (hp : p.Writable b.filters.options.keywordsCaseSensitive) (htext : p.IsText text) {e : Error}
    (h : b.sortAttribute .user (some text) = .error e) : e = .unmapped ⟨p.logicalName, table.entity⟩ := by
  rw [sortAttribute_text htable hp htext, Outcome.map_eq_error_iff, Mapping.Table.resolve] at h
  cases hfound : table.find? p with
  | none =>
    rw [hfound] at h
    cases h
    rfl
  | some m =>
    rw [hfound] at h
    cases h

/-- To ask that users have an attribute is to ask for it by the name that they would be sorted by. -/
theorem searchFilter_pr_eq (htable : b.filters.mappings.get? .user = some table)
    (hvisitor : b.filters.visitors.get? .user = some (.ofTable table))
    (hp : p.Writable b.filters.options.keywordsCaseSensitive) (htext : p.IsText text)
    (hlen : (text ++ " pr").utf8ByteSize ≤ b.filters.options.maxLength) :
    b.filters.searchFilter (some (text ++ " pr")) .user
      = (b.sortAttribute .user (some text)).map SearchFilter.present := by
  have hblank : Text.isBlankText (text ++ " pr") = false := by
    rw [Text.isBlankText, String.toList_append, List.all_append, Bool.and_eq_false_iff]
    exact .inr (by decide)
  have hparse : b.filters.parse (text ++ " pr") = .ok (.present p) := Filter.parse_pr hp htext hlen
  rw [FilterService.searchFilter_some, hvisitor, sortAttribute_text htable hp htext]
  simp only [hblank, hparse]
  show (SearchFilter.ofScim table (.present p)).mapError Error.ofLeaf = _
  rw [SearchFilter.ofScim]
  cases table.resolve p <;> rfl

theorem eq_of_render_present {a a' : String}
    (h : (SearchFilter.present a).render = (SearchFilter.present a').render) : a = a' := by
  rw [SearchFilter.render, SearchFilter.render] at h
  simpa [String.append_assoc] using h

/-- **Users are sorted by the attribute that a filter would ask for, or not at all.** The tables are any that
    hold one for users, and the path is written either way. The request to sort by it succeeds with an attribute
    exactly when the filter that asks for its presence becomes the question for that attribute; it fails exactly
    when that does, with the same error, and the only error is that the path has no mapping. -/
theorem sort_agrees_with_presence {options : Filter.Options} {tables : List Mapping.Table}
    (huser : ∃ t ∈ tables, t.entity = .user) {p : AttrPath} (hp : p.Writable options.keywordsCaseSensitive)
    {text : String} (htext : p.IsText text) (hlen : (text ++ " pr").utf8ByteSize ≤ options.maxLength)
    (paging : Paging) (baseDn : String) (params : Params) (returnAttributes : List String) :
    let service := FilterService.ofMappings options (.ofTables tables)
    let b : Builder := { filters := service, paging }
    let request := b.request baseDn .user { params with filter := none, sortBy := some text } returnAttributes
    let answer := service.searchFilter (some (text ++ " pr")) .user
    (∀ a, (∃ r, request = .ok r ∧ r.sortBy = a) ↔
      answer.map SearchFilter.render = .ok ("(" ++ a ++ "=*)")) ∧
    (∀ e, request = .error e ↔ answer = .error e) ∧
    ∀ e, request = .error e → e = .unmapped ⟨p.logicalName, .user⟩ := by
  intro service b request answer
  obtain ⟨table, htable, hentity⟩ := Mapping.Registry.exists_of_mem huser
  have hvisitor : service.visitors.get? .user = some (.ofTable table) := by
    show (service.mappings.map Ldap.Visitor.ofTable).get? .user = _
    rw [ByEntity.get?_map, show service.mappings.get? .user = some table from htable]
    rfl
  have hanswer : answer = (b.sortAttribute .user (some text)).map SearchFilter.present :=
    searchFilter_pr_eq (b := b) htable hvisitor hp htext hlen
  have hrequest : request = _ :=
    request_of_no_filter (b := b) hvisitor baseDn { params with sortBy := some text } returnAttributes
  refine ⟨fun a => ?_, fun e => ?_, fun e he => ?_⟩
  · have hsorted : (∃ r, request = .ok r ∧ r.sortBy = a) ↔ b.sortAttribute .user (some text) = .ok a := by
      simp only [hrequest, Outcome.map_eq_ok_iff]
      constructor
      · rintro ⟨_, ⟨a', h, rfl⟩, rfl⟩
        exact h
      · intro h
        exact ⟨_, ⟨a, h, rfl⟩, rfl⟩
    have hasked : answer.map SearchFilter.render = .ok ("(" ++ a ++ "=*)") ↔
        b.sortAttribute .user (some text) = .ok a := by
      simp only [hanswer, Outcome.map_eq_ok_iff]
      constructor
      · rintro ⟨_, ⟨a', h, rfl⟩, hrender⟩
        rwa [← eq_of_render_present hrender]
      · intro h
        exact ⟨_, ⟨a, h, rfl⟩, rfl⟩
    exact hsorted.trans hasked.symm
  · rw [hrequest, hanswer, Outcome.map_eq_error_iff, Outcome.map_eq_error_iff]
  · rw [hrequest, Outcome.map_eq_error_iff] at he
    rw [← hentity]
    exact sortAttribute_text_error (b := b) htable hp htext he

/-- A path that stands for its `value`, in capitals and at the limit on length, and one that has no mapping,
    written with a colon and named with a point. -/
theorem sort_agrees_with_presence_emails :
    let table := Mapping.Table.insert { entity := .user } "emails.value" ⟨"mail", .string⟩
    let service := FilterService.ofMappings { maxLength := 9, maxDepth := 0 } (.ofTables [table])
    let b : Builder := { filters := service }
    let sorted := fun text => b.request "ou=people,o=gluu" .user { sortBy := some text } []
    let asked := fun text => service.searchFilter (some (text ++ " pr")) .user
    ((∃ r, sorted "Emails" = .ok r ∧ r.sortBy = "mail") ∧
      (asked "Emails").map SearchFilter.render = .ok "(mail=*)") ∧
    sorted "name:x" = .error (.unmapped ⟨"name.x", .user⟩) ∧
      asked "name:x" = .error (.unmapped ⟨"name.x", .user⟩) := by
  intro table service b sorted asked
  have huser : ∃ t ∈ [table], t.entity = .user := ⟨table, List.mem_cons_self, rfl⟩
  have hname : ∀ s ∈ ["Emails", "name", "x"], Filter.IsName false s := by
    intro s hs
    simp only [List.mem_cons, List.not_mem_nil, or_false] at hs
    rcases hs with rfl | rfl | rfl <;> exact ⟨Filter.isWord_of_all (by decide) (by decide), by decide +kernel⟩
  have hemails : AttrPath.Writable false ⟨"Emails", none⟩ := ⟨hname _ (by simp), fun s hs => by cases hs⟩
  have hx : AttrPath.Writable false ⟨"name", some "x"⟩ :=
    ⟨hname _ (by simp), fun s hs => by cases hs; exact hname _ (by simp)⟩
  have hfound := (@sort_agrees_with_presence { maxLength := 9, maxDepth := 0 } _ huser _ hemails "Emails"
    (.inl rfl) (by decide +kernel) {} "ou=people,o=gluu" {} []).1 "mail"
  have hmissing := (@sort_agrees_with_presence { maxLength := 9, maxDepth := 0 } _ huser _ hx "name:x"
    (.inl rfl) (by decide +kernel) {} "ou=people,o=gluu" {} []).2
  have hsort : b.sortAttribute .user (some "Emails") = .ok "mail" := by
    refine (sortAttribute_text (b := b) rfl hemails (.inl rfl)).trans ?_
    rw [Mapping.Table.resolve_of_find? (m := ⟨"mail", .string⟩) (by decide +kernel)]
    rfl
  have hfails : b.sortAttribute .user (some "name:x") = .error (.unmapped ⟨"name.x", .user⟩) := by
    refine (sortAttribute_text (b := b) rfl hx (.inl rfl)).trans ?_
    rw [Mapping.Table.resolve_of_find?_eq_none (by decide +kernel)]
    rfl
  have hmail := (request_of_no_filter (b := b) rfl "ou=people,o=gluu" { sortBy := some "Emails" } []).trans
    (congrArg (Except.map _) hsort)
  have hsorted := (request_of_no_filter (b := b) rfl "ou=people,o=gluu" { sortBy := some "name:x" } []).trans
    (congrArg (Except.map _) hfails)
  exact ⟨⟨⟨_, hmail, rfl⟩, hfound.mp ⟨_, hmail, rfl⟩⟩, hsorted, (hmissing.1 _).mp hsorted⟩

end Search.Builder

end ScimLdap
