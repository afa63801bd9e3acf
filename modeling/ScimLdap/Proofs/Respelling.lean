import Mathlib
import ScimLdap.Mapping.Builtin
import ScimLdap.Proofs.Acceptance
import ScimLdap.Proofs.Renaming
import ScimLdap.Proofs.Scanning
import ScimLdap.Service

/-!
# Respelling — the same filter, written otherwise

A text may be written again with other blanks between its tokens, other case in its words and the other
separator in its paths. `Respelling` says so of two texts through the tokens of the first, and the service
answers both alike (`searchFilter_respelling`): with the same search filter, or with errors of one kind.

The two runs meet in the outlines of their tokens. Scanning a respelling yields tokens of the same outline
(`Respells.scans`), reading yields trees that differ in the case of names alone, and a table without regard
to case cannot tell these apart (`kind_ofScim_rename`).
-/

namespace ScimLdap

open Text (Stops stops_nil foldCase sameFold sameFold_iff)

/-! ## Letters without their case -/

namespace Text

theorem toNat_toLower (c : Char) :
    c.toLower.toNat = if 65 ≤ c.toNat ∧ c.toNat ≤ 90 then c.toNat + 32 else c.toNat := by
  unfold Char.toLower
  split
  · next h =>
    have hrange : 65 ≤ c.toNat ∧ c.toNat ≤ 90 := h
    rw [if_pos hrange]
    show (c.val + ('a'.val - 'A'.val)).toNat = c.toNat + 32
    rw [UInt32.toNat_add]
    show (c.toNat + 32) % 2 ^ 32 = c.toNat + 32
    omega
  · next h =>
    have hrange : ¬(65 ≤ c.toNat ∧ c.toNat ≤ 90) := h
    rw [if_neg hrange]

theorem foldCase_foldCase (s : String) : foldCase (foldCase s) = foldCase s := by
  apply String.toList_inj.mp
  simp

end Text

namespace Filter

open Text (toNat_toLower)

theorem wordChar_iff_toNat (c : Char) : WordChar c ↔ c.isAlpha = true ∨
    48 ≤ c.toNat ∧ c.toNat ≤ 57 ∨ c.toNat = 95 ∨ c.toNat = 45 := by
  have hcode : ∀ d : Char, c = d ↔ c.toNat = d.toNat := fun d => Char.toNat_inj.symm
  simp only [WordChar, Char.isDigit, Bool.and_eq_true, decide_eq_true_eq, ge_iff_le,
    UInt32.le_iff_toNat_le, hcode]
  exact Iff.rfl

theorem wordChar_toLower (c : Char) : WordChar c.toLower ↔ WordChar c := by
  rw [wordChar_iff_toNat, wordChar_iff_toNat, Char.isAlpha_toLower_eq_isAlpha, toNat_toLower]
  grind

/-- A word stays a word when the case of its letters changes. -/
theorem IsWord.of_sameFold {w v : String} (h : IsWord v.toList) (hfold : foldCase w = foldCase v) :
    IsWord w.toList := by
  have hmap : w.toList.map Char.toLower = v.toList.map Char.toLower := by
    rw [← Text.toList_foldCase, hfold, Text.toList_foldCase]
  obtain ⟨c, cs, hv, hc, hcs⟩ := h
  cases hw : w.toList with
  | nil => rw [hw, hv] at hmap; cases hmap
  | cons d ds =>
    rw [hw, hv, List.map_cons, List.map_cons, List.cons.injEq] at hmap
    refine ⟨d, ds, rfl, ?_, ?_⟩
    · rwa [← Char.isAlpha_toLower_eq_isAlpha, hmap.1, Char.isAlpha_toLower_eq_isAlpha]
    · intro e he
      obtain ⟨e', he', heq⟩ := List.mem_map.mp (hmap.2 ▸ List.mem_map_of_mem he)
      rw [← wordChar_toLower, ← heq, wordChar_toLower]
      exact hcs e' he'

/-! ## Respellings -/

/-- Whether a kind is written as a word: a keyword or a name. -/
def TokenKind.isWord : TokenKind → Bool
  | .name | .compareOp _ | .present | .and | .or | .not | .bool _ | .null => true
  | _ => false

/-- What a token may be written as instead: a word in any case of its letters, a separator as either of the two,
    and everything else as it stands. -/
def Token.RespelledAs (t : Token) (w : List Char) : Prop :=
  if t.kind.isWord then sameFold (String.ofList w) t.text = true
  else if t.kind = .colon ∨ t.kind = .dot then w = [':'] ∨ w = ['.']
  else w = t.text.toList

/-- Nothing but blanks. -/
def IsGap (cs : List Char) : Prop :=
  ∀ c ∈ cs, Text.isBlank c = true

instance (cs : List Char) : Decidable (IsGap cs) :=
  List.decidableBAll _ cs

/-- The characters of a text that spells tokens again: blanks after each, and at least one between two. -/
inductive Respells : List Token → List Char → Prop
  | nil : Respells [] []
  | cons {t : Token} {ts : List Token} {w gap cs : List Char} (hw : t.RespelledAs w) (hgap : IsGap gap)
      (hsep : ts ≠ [] → gap ≠ []) (h : Respells ts cs) : Respells (t :: ts) (w ++ gap ++ cs)

/-- A text that spells tokens again, with blanks at both ends or without. -/
def Respelling (ts : List Token) (text : String) : Prop :=
  ∃ gap cs, text.toList = gap ++ cs ∧ IsGap gap ∧ Respells ts cs

/-! ## Scanning a respelling -/

variable {options : Options} {cs gap w : List Char} {P : List Token → Prop} {t : Token}
  {ts : List Token}

theorem isWord_of_isLexeme {kind : TokenKind} (h : IsLexeme options kind cs)
    (hk : kind.isWord = true) : IsWord cs ∧ kind = .ofWord options (String.ofList cs) := by
  cases h with
  | punctuation hp =>
    unfold punctuation? at hp
    split at hp <;> cases hp <;> cases hk
  | string | number => cases hk
  | word hw => exact ⟨hw, rfl⟩

/-- What a token is written as instead is a lexeme with the outline of the token. -/
theorem Token.RespelledAs.isLexeme (h : t.RespelledAs w)
    (hcase : options.keywordsCaseSensitive = false) (ht : IsLexeme options t.kind t.text.toList) :
    ∃ kind, IsLexeme options kind w ∧ ∀ position,
      Token.outline foldCase ⟨kind, String.ofList w, position⟩ = t.outline foldCase := by
  have hof : ∀ s : String, TokenKind.ofWord options s = .ofKeyword (foldCase s) := fun s => by
    rw [TokenKind.ofWord, if_neg (by simp [hcase])]
  unfold Token.RespelledAs at h
  split at h
  · next hword =>
    -- Keywords are known in any case, so the word is of the kind that it was.
    obtain ⟨hw, hk⟩ := isWord_of_isLexeme ht hword
    have hfold : foldCase (String.ofList w) = foldCase t.text := sameFold_iff.mp h
    rw [String.ofList_toList, hof] at hk
    have hlex : IsWord w := by simpa using IsWord.of_sameFold (w := String.ofList w) hw hfold
    refine ⟨_, .word hlex, fun p => ?_⟩
    rw [hof, hfold, ← hk]
    simp only [Token.outline, hfold]
  split at h
  · next hsep =>
    have hout : t.outline foldCase = ⟨.colon, "", 0⟩ := by
      rcases hsep with hsep | hsep <;> simp [Token.outline, hsep]
    rw [hout]
    rcases h with rfl | rfl
    · exact ⟨.colon, .punctuation rfl, fun p => rfl⟩
    · exact ⟨.dot, .punctuation rfl, fun p => rfl⟩
  · subst h
    refine ⟨t.kind, ht, fun p => ?_⟩
    rw [String.ofList_toList]
    rfl

theorem joins_eq_false_of_isBlank {c : Char} (h : Text.isBlank c = true) : joins c = false := by
  cases hj : joins c with
  | false => rfl
  | true =>
    simp only [joins, Bool.or_eq_true, beq_iff_eq] at hj
    rcases hj with (hw | rfl) | rfl
    · obtain ⟨hlo, hhi⟩ := ascii_of_isWordChar hw
      rw [isBlank_eq_false_of_ascii hlo hhi] at h
      cases h
    · cases h
    · cases h

theorem Scans.afterGap (h : Scans options cs P) (hgap : IsGap gap) : Scans options (gap ++ cs) P := by
  induction gap with
  | nil => exact h
  | cons c gap ih =>
    intro position rest hr
    obtain ⟨ts, hts, hp⟩ := ih (fun d hd => hgap d (List.mem_cons_of_mem c hd))
      (position + Text.width [c]) rest hr
    refine ⟨ts, ?_, hp⟩
    rw [List.cons_append, List.cons_append, scanTokens_blank (hgap c List.mem_cons_self), hts,
      Nat.add_assoc, ← Text.width_append]
    rfl

theorem Respells.scans (h : Respells ts cs) (hcase : options.keywordsCaseSensitive = false)
    (hts : ∀ t ∈ ts, IsLexeme options t.kind t.text.toList) :
    Scans options cs (fun us => us.map (Token.outline foldCase) = ts.map (Token.outline foldCase)) := by
  induction h with
  | nil => exact (scans_nil options).imp fun us hus => by rw [hus]
  | @cons t ts w gap cs hw hgap hsep h ih =>
    obtain ⟨kind, hlex, hout⟩ := hw.isLexeme hcase (hts t List.mem_cons_self)
    have hrest := ih fun u hu => hts u (List.mem_cons_of_mem t hu)
    cases gap with
    | nil =>
      have hnil : ts = [] := Classical.byContradiction fun hne => hsep hne rfl
      subst hnil
      cases h
      rw [List.append_nil, List.append_nil]
      apply hlex.scans.imp
      rintro us ⟨position, rfl⟩
      rw [List.map_cons, hout]
      rfl
    | cons b gap =>
      have hjoin := joins_eq_false_of_isBlank (hgap b List.mem_cons_self)
      have hall := hlex.scans.append hjoin (hrest.afterGap hgap)
      rw [List.append_assoc]
      apply hall.imp
      rintro us ⟨_, vs, rfl, ⟨position, rfl⟩, hvs⟩
      rw [List.map_append, hvs, List.map_cons, List.map_nil, hout]
      rfl

/-- The tokens of a respelling have the outlines of the tokens that it respells. -/
theorem Respelling.tokenize {text text' : String} {tokens : List Token}
    (h : Respelling (beforeEnd tokens) text') (hcase : options.keywordsCaseSensitive = false)
    (htok : tokenize options text = .ok tokens) (hlen : text'.utf8ByteSize ≤ options.maxLength) :
    ∃ tokens', Filter.tokenize options text' = .ok tokens' ∧
      tokens'.map (Token.outline foldCase) = tokens.map (Token.outline foldCase) := by
  obtain ⟨gap, cs, htext, hgap, h⟩ := h
  obtain ⟨us, rfl, hus⟩ := tokenize_sound htok
  rw [beforeEnd_append_eof (fun u hu => by simpa [Token.isEof] using (hus u hu).not_eof) rfl] at h
  have hscan := (h.scans hcase hus).afterGap hgap
  rw [← htext] at hscan
  obtain ⟨vs, hvs, hout⟩ := hscan.tokenize hlen
  refine ⟨_, hvs, ?_⟩
  rw [List.map_append, hout, List.map_append]
  rfl

/-- A text is blank exactly when it has no tokens but the one that marks the end. -/
theorem isBlankText_iff_length {text : String} {tokens : List Token}
    (h : tokenize options text = .ok tokens) : Text.isBlankText text = true ↔ tokens.length = 1 := by
  have hscan : ∀ {position : Nat} {cs : List Char} {ts : List Token},
      scanTokens options position cs = .ok ts → (cs.all Text.isBlank = true ↔ ts.length = 1) := by
    intro position cs ts h
    fun_induction scanTokens options position cs generalizing ts with
    | case1 => cases h; simp
    | case2 position c cs hb ih => simpa [hb] using ih h
    | case3 => cases h
    | case4 position c cs hb l hl ih =>
      obtain ⟨vs, hs, rfl⟩ := Outcome.map_eq_ok_iff.mp h
      obtain ⟨us, rfl, -⟩ := scanTokens_sound hs
      simp [hb]
  exact hscan (tokenize_eq_ok_iff.mp h).2

end Filter

/-! ## Trees that differ in the case of names -/

theorem AttrPath.foldCase_logicalName_rename (p : AttrPath) :
    foldCase (p.rename foldCase).logicalName = foldCase p.logicalName := by
  obtain ⟨attr, sub⟩ := p
  cases sub with
  | none => exact Text.foldCase_foldCase attr
  | some sub => simp [rename, logicalName, Text.foldCase_append, Text.foldCase_foldCase]

namespace Mapping.Table

variable {t : Table}

/-- A table without regard to case finds a path by its folded names. -/
theorem find?_rename (ht : t.caseSensitive = false) (p : AttrPath) :
    t.find? (p.rename foldCase) = t.find? p := by
  have hkey : ∀ s, t.key s = foldCase s := fun s => by rw [key, if_neg (by simp [ht])]
  have hsub : (p.rename foldCase).sub.isNone = p.sub.isNone := Option.isNone_map
  rw [find?, find?, hsub]
  simp only [hkey, Text.foldCase_append, AttrPath.foldCase_logicalName_rename]

end Mapping.Table

namespace Ldap.SearchFilter

/-- The kind of error that a leaf without a counterpart becomes. -/
def leafKind (e : LeafError) : ErrorKind :=
  (Error.ofLeaf e).kind

variable {t : Mapping.Table}

theorem leafKind_ofScimAll_rename {fs : List Filter}
    (h : ∀ f ∈ fs, (ofScim t (f.rename foldCase)).mapError leafKind = (ofScim t f).mapError leafKind) :
    (ofScimAll t (Filter.renameAll foldCase fs)).mapError leafKind
      = (ofScimAll t fs).mapError leafKind := by
  induction fs with
  | nil => rfl
  | cons f fs ih =>
    have hfs := ih fun g hg => h g (List.mem_cons_of_mem f hg)
    rw [Filter.renameAll, ofScimAll, ofScimAll]
    rcases Outcome.mapError_eq_mapError_iff.mp (h f List.mem_cons_self) with
      ⟨g, hg, hg'⟩ | ⟨e, e', he, he', hk⟩
    · rw [hg, hg']
      simp only [Outcome.mapError_map, hfs]
    · rw [he, he']
      exact congrArg Except.error hk

/-- What a tree becomes does not depend on the case of its names, but for the names in an error. -/
theorem leafKind_ofScim_rename (ht : t.caseSensitive = false) (f : Filter) :
    (ofScim t (f.rename foldCase)).mapError leafKind = (ofScim t f).mapError leafKind := by
  induction f using Filter.inductOperands with
  | compare p op v =>
    rw [Filter.rename, ofScim, ofScim, Mapping.Table.resolve, Mapping.Table.resolve,
      Mapping.Table.find?_rename ht]
    cases t.find? p with
    | none => rfl
    | some m =>
      simp only
      cases ofComparison m op v <;> rfl
  | present p =>
    rw [Filter.rename, ofScim, ofScim, Mapping.Table.resolve, Mapping.Table.resolve,
      Mapping.Table.find?_rename ht]
    cases t.find? p <;> rfl
  | logical c fs ih =>
    rw [Filter.rename, ofScim, ofScim, Outcome.mapError_map, Outcome.mapError_map,
      leafKind_ofScimAll_rename ih]
  | group f ih => rwa [Filter.rename, ofScim, ofScim]

end Ldap.SearchFilter

/-! ## The service -/

namespace FilterService

variable {service : FilterService} {entity : Entity}

theorem searchFilter_some (service : FilterService) (text : String) (entity : Entity) :
    service.searchFilter (some text) entity =
      match service.visitors.get? entity with
      | none => .error (.unregistered entity)
      | some v =>
        if Text.isBlankText text then .ok v.matchAll
        else ((service.parse text).mapError .malformed).bind (fun f => (v.visit f).mapError .ofLeaf) := by
  have hblank : Text.nonBlank? (some text) = if Text.isBlankText text then none else some text := by
    cases h : Text.isBlankText text <;> simp [Text.nonBlank?, h]
  rw [searchFilter, visitor, hblank]
  cases service.visitors.get? entity with
  | none => rfl
  | some v => cases Text.isBlankText text <;> rfl

/-- Texts that read alike but for the case of names are answered with errors of one kind, or alike. -/
theorem kind_searchFilter_eq {text text' : String}
    (htables : ∀ e v, service.visitors.get? e = some v →
      ∃ t : Mapping.Table, t.caseSensitive = false ∧ v = .ofTable t)
    (hblank : Text.isBlankText text = Text.isBlankText text')
    (hparse : (service.parse text).toOption.map (Filter.rename foldCase)
      = (service.parse text').toOption.map (Filter.rename foldCase)) :
    (service.searchFilter (some text) entity).mapError Error.kind
      = (service.searchFilter (some text') entity).mapError Error.kind := by
  rw [searchFilter_some, searchFilter_some, ← hblank]
  cases hv : service.visitors.get? entity with
  | none => rfl
  | some v =>
    obtain ⟨t, ht, rfl⟩ := htables entity v hv
    simp only
    split
    · rfl
    cases hf : service.parse text with
    | error e =>
      cases hg : service.parse text' with
      | error e' => rfl
      | ok g => rw [hf, hg] at hparse; cases hparse
    | ok f =>
      cases hg : service.parse text' with
      | error e' => rw [hf, hg] at hparse; cases hparse
      | ok g =>
        rw [hf, hg] at hparse
        have hrename : f.rename foldCase = g.rename foldCase := Option.some.inj hparse
        have hleaf : (Ldap.SearchFilter.ofScim t f).mapError Ldap.SearchFilter.leafKind
            = (Ldap.SearchFilter.ofScim t g).mapError Ldap.SearchFilter.leafKind := by
          rw [← Ldap.SearchFilter.leafKind_ofScim_rename ht, hrename,
            Ldap.SearchFilter.leafKind_ofScim_rename ht]
        have hkind : ∀ x : Except Ldap.LeafError Ldap.SearchFilter,
            (x.mapError Error.ofLeaf).mapError Error.kind = x.mapError Ldap.SearchFilter.leafKind :=
          fun x => by cases x <;> rfl
        exact (hkind _).trans (hleaf.trans (hkind _).symm)

/-- **Spelling never changes the answer.** A text is written again with other blanks, other case in its keywords
    and names and the other separator in its paths. If keywords are known in any case and the limit on length
    admits it, the new text has tokens as well; and where every visitor goes through a table without regard to
    case, both texts get the same search filter or errors of one kind. -/
theorem searchFilter_respelling (service : FilterService) (entity : Entity) {text text' : String}
    {tokens : List Filter.Token} (hcase : service.options.keywordsCaseSensitive = false)
    (htables : ∀ e v, service.visitors.get? e = some v →
      ∃ t : Mapping.Table, t.caseSensitive = false ∧ v = .ofTable t)
    (htok : Filter.tokenize service.options text = .ok tokens)
    (hspell : Filter.Respelling (Filter.beforeEnd tokens) text')
    (hlen : text'.utf8ByteSize ≤ service.options.maxLength) :
    (∃ tokens', Filter.tokenize service.options text' = .ok tokens') ∧
      ((∃ answer, (service.searchFilter (some text) entity).map Ldap.SearchFilter.render = .ok answer ∧
          (service.searchFilter (some text') entity).map Ldap.SearchFilter.render = .ok answer) ∨
        ∃ e e', service.searchFilter (some text) entity = .error e ∧
          service.searchFilter (some text') entity = .error e' ∧ e.kind = e'.kind) := by
  obtain ⟨tokens', htok', hout⟩ := hspell.tokenize hcase htok hlen
  refine ⟨⟨tokens', htok'⟩, ?_⟩
  have hblank : Text.isBlankText text = Text.isBlankText text' := by
    have hlength : tokens'.length = tokens.length := by simpa using congrArg List.length hout
    rw [Bool.eq_iff_iff, Filter.isBlankText_iff_length htok, Filter.isBlankText_iff_length htok', hlength]
  have hparse : (service.parse text).toOption.map (Filter.rename foldCase)
      = (service.parse text').toOption.map (Filter.rename foldCase) := by
    rw [parse, parse, Filter.parse, Filter.parse, htok, htok']
    show (Filter.parseTokens service.options tokens).toOption.map _
      = (Filter.parseTokens service.options tokens').toOption.map _
    rw [← Filter.toOption_parseTokens_outline, ← Filter.toOption_parseTokens_outline, hout]
  rcases Outcome.mapError_eq_mapError_iff.mp (kind_searchFilter_eq htables hblank hparse) with
    ⟨f, hf, hf'⟩ | ⟨e, e', he, he', hk⟩
  · exact .inl ⟨f.render, by rw [hf]; rfl, by rw [hf']; rfl⟩
  · exact .inr ⟨e, e', he, he', hk⟩

/-- The tokens of `emails.value eq "Q"`, without the one that marks the end. -/
def emailsTokens : List Filter.Token :=
  [⟨.name, "emails", 0⟩, ⟨.dot, ".", 6⟩, ⟨.name, "value", 7⟩, ⟨.compareOp .eq, "eq", 13⟩,
    ⟨.string "Q", "\"Q\"", 16⟩]

theorem respelling_emails :
    Filter.Respelling emailsTokens " EMAILS\u00a0: Value\tEq  \"Q\"\n" := by
  have hsep : ∀ {gap : List Char}, gap ≠ [] → ∀ ts : List Filter.Token, ts ≠ [] → gap ≠ [] :=
    fun h _ _ => h
  refine ⟨[' '], ['E', 'M', 'A', 'I', 'L', 'S'] ++ ['\u00a0'] ++ ([':'] ++ [' '] ++
    (['V', 'a', 'l', 'u', 'e'] ++ ['\t'] ++ (['E', 'q'] ++ [' ', ' '] ++ (['"', 'Q', '"'] ++ ['\n'] ++ [])))),
    by decide +kernel, by decide +kernel, ?_⟩
  refine .cons (by cbv) (by decide +kernel) (hsep (by simp) _) ?_
  refine .cons (by cbv) (by decide +kernel) (hsep (by simp) _) ?_
  refine .cons (by cbv) (by decide +kernel) (hsep (by simp) _) ?_
  refine .cons (by cbv) (by decide +kernel) (hsep (by simp) _) ?_
  exact .cons (by cbv) (by decide +kernel) (hsep (by simp) _) .nil

/-- A no-break space, a tab, a colon for a point and capitals in a keyword and in names; the string keeps its
    own. -/
theorem searchFilter_respelling_emails :
    let table : Mapping.Table := { entity := .user }
    let service := ofMappings {} (.ofTables [table.insert "emails.value" ⟨"mail", .string⟩])
    let text := "emails.value eq \"Q\""
    let text' := " EMAILS\u00a0: Value\tEq  \"Q\"\n"
    (∃ tokens', Filter.tokenize service.options text' = .ok tokens') ∧
      ∃ answer, (service.searchFilter (some text) .user).map Ldap.SearchFilter.render = .ok answer ∧
        (service.searchFilter (some text') .user).map Ldap.SearchFilter.render = .ok answer := by
  intro table service text text'
  have htables : ∀ e v, service.visitors.get? e = some v →
      ∃ t : Mapping.Table, t.caseSensitive = false ∧ v = .ofTable t := by
    intro e v hv
    cases e with
    | user => exact ⟨_, rfl, (Option.some.inj hv).symm⟩
    | group | fidoDevice => cases hv
  have htok : Filter.tokenize {} text = .ok (emailsTokens ++ [⟨.eof, "", 19⟩]) := by cbv
  have h := searchFilter_respelling service .user rfl htables htok respelling_emails (by decide +kernel)
  refine ⟨h.1, h.2.resolve_right ?_⟩
  rintro ⟨e, e', he, -, -⟩
  have hparse : service.parse text = .ok (.compare ⟨"emails", some "value"⟩ .eq (.string "Q")) := by cbv
  have hfind : (table.insert "emails.value" ⟨"mail", .string⟩).find? ⟨"emails", some "value"⟩
      = some ⟨"mail", .string⟩ := by cbv
  have hvisitor : service.visitors.get? .user
      = some (.ofTable (table.insert "emails.value" ⟨"mail", .string⟩)) := rfl
  have hvisit : Ldap.SearchFilter.ofScim (table.insert "emails.value" ⟨"mail", .string⟩)
      (.compare ⟨"emails", some "value"⟩ .eq (.string "Q")) = .ok (.equal "mail" (.text "Q")) := by
    rw [Ldap.SearchFilter.ofScim, Mapping.Table.resolve, hfind]
    rfl
  have hblank : ¬Text.isBlankText text = true := by decide +kernel
  rw [searchFilter_some, hvisitor] at he
  simp only [if_neg hblank, hparse] at he
  change (Except.mapError Error.ofLeaf (Ldap.SearchFilter.ofScim _ _)) = _ at he
  rw [hvisit] at he
  cases he

end FilterService

end ScimLdap
