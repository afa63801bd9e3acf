import ScimLdap.Filter.Printer
import ScimLdap.Proofs.Acceptance
import ScimLdap.Proofs.Scanning

/-!
# The canonical text — what it is read as

The canonical text of a tree is read as the tree with the parentheses that the text adds: those around an
`or` under an `and`, which are groups once they are read (`Filter.grouped`). For a tree in normal form there
are none, so its text is read as the tree itself. What the text cannot carry is the rest of what a tree may
hold: a path whose names are no names, a number that is no number, a connective without operands.
`Filter.Writable` says the first two, which are also what no tree that was read can have.
-/

namespace ScimLdap

open ScimLdap.Filter (IsName IsNumber)

/-! ## What can be written -/

/-- A path made of names. -/
def AttrPath.Writable (caseSensitive : Bool) (p : AttrPath) : Prop :=
  IsName caseSensitive p.attr ∧ ∀ s ∈ p.sub, IsName caseSensitive s

/-- A literal whose number, if it is one, is a number. Strings may hold anything. -/
def Literal.Writable : Literal → Prop
  | .number lexeme => IsNumber lexeme
  | _ => True

/-- A tree with nothing but names and numbers where they are due. -/
inductive Filter.Writable (caseSensitive : Bool) : Filter → Prop
  | compare {p : AttrPath} {op : CompareOp} {v : Literal} (hp : p.Writable caseSensitive)
      (hv : v.Writable) : Writable caseSensitive (.compare p op v)
  | present {p : AttrPath} (hp : p.Writable caseSensitive) : Writable caseSensitive (.present p)
  | group {f : Filter} (h : Writable caseSensitive f) : Writable caseSensitive (.group f)
  | logical {c : Connective} {fs : List Filter} (h : ∀ f ∈ fs, Writable caseSensitive f) :
      Writable caseSensitive (.logical c fs)

namespace Filter

open Text (stops_cons)

variable {options : Options} {f : Filter} {cs ds : List Char} {ts : List Token}

/-! ## What is read can be written -/

theorem isName_of_isLexeme {s : String} (h : IsLexeme options .name s.toList) :
    IsName options.keywordsCaseSensitive s := by
  generalize hk : TokenKind.name = kind at h
  generalize hw : s.toList = w at h
  cases h with
  | punctuation hp =>
    subst hk
    unfold punctuation? at hp
    split at hp <;> cases hp
  | string | number => cases hk
  | word h =>
    refine ⟨hw ▸ h, ofWord_eq_name_iff.mp ?_⟩
    rw [hk, ← hw, String.ofList_toList]

theorem isNumber_of_isLexeme {s : String} (h : IsLexeme options (.number s) cs) : IsNumber s := by
  generalize hk : TokenKind.number s = kind at h
  cases h with
  | punctuation hp =>
    subst hk
    unfold punctuation? at hp
    split at hp <;> cases hp
  | string => cases hk
  | number h => cases hk; exact h
  | word => exact absurd hk.symm ((ofKeyword_ne _).2 s)

theorem SpellsPath.writable {p : AttrPath} (h : SpellsPath ts p)
    (hts : ∀ t ∈ ts, IsLexeme options t.kind t.text.toList) :
    p.Writable options.keywordsCaseSensitive := by
  cases h with
  | @plain t ht =>
    have hname := hts t List.mem_cons_self
    rw [ht] at hname
    exact ⟨isName_of_isLexeme hname, fun s hs => by cases hs⟩
  | @qualified t s u ht _ hu =>
    have hname := hts t List.mem_cons_self
    have hsub := hts u (by simp)
    rw [ht] at hname
    rw [hu] at hsub
    refine ⟨isName_of_isLexeme hname, fun s hs => ?_⟩
    cases hs
    exact isName_of_isLexeme hsub

theorem writable_of_literal {t : Token} {v : Literal} (h : SpellsLiteral t.kind v)
    (ht : IsLexeme options t.kind t.text.toList) : v.Writable := by
  generalize t.kind = kind at h ht
  cases h with
  | number => exact isNumber_of_isLexeme ht
  | _ => trivial

mutual

/-- A tree that lexemes spell has names for names and numbers for numbers. -/
theorem Spells.writable : ∀ {ts : List Token} {f : Filter}, Spells ts f →
    (∀ t ∈ ts, IsLexeme options t.kind t.text.toList) → f.Writable options.keywordsCaseSensitive
  | _, _, .present hp _, hts => .present (hp.writable fun t ht => hts t (by simp [ht]))
  | _, _, .compare hp _ hv, hts =>
    .compare (hp.writable fun t ht => hts t (by simp [ht])) (writable_of_literal hv (hts _ (by simp)))
  | _, _, .group _ h _, hts => .group (Spells.writable h fun t ht => hts t (by simp [ht]))
  | _, _, .negation _ _ h _, hts => by
    have ih := Spells.writable h fun t ht => hts t (by simp [ht])
    refine .logical fun f hf => ?_
    rwa [List.mem_singleton.mp hf]
  | _, _, .joined _ h, hts => .logical (Joined.writable h hts)

theorem Joined.writable : ∀ {c : Connective} {ts : List Token} {fs : List Filter}, Joined c ts fs →
    (∀ t ∈ ts, IsLexeme options t.kind t.text.toList) →
    ∀ f ∈ fs, f.Writable options.keywordsCaseSensitive
  | _, _, _, .one h, hts => by
    have ih := Spells.writable h hts
    intro f hf
    rwa [List.mem_singleton.mp hf]
  | _, _, _, .more h _ hs, hts => by
    have ih := Spells.writable h fun t ht => hts t (by simp [ht])
    have ihs := Joined.writable hs fun t ht => hts t (by simp [ht])
    intro f hf
    rcases List.mem_cons.mp hf with rfl | hf
    · exact ih
    · exact ihs f hf

end

/-- A tree that a text spells has the normal form and can be written. -/
theorem normal_and_writable_of_parse {text : String} (h : parse options text = .ok f) :
    f.Normal ∧ f.Writable options.keywordsCaseSensitive ∧ f.depth ≤ options.maxDepth := by
  obtain ⟨tokens, ht, hp⟩ := Outcome.bind_eq_ok_iff.mp h
  obtain ⟨-, hn, hd, hspells⟩ := parseTokens_eq_ok_iff.mp hp
  refine ⟨hn, hspells.writable fun t hmem => ?_, hd⟩
  obtain ⟨us, rfl, hus⟩ := tokenize_sound ht
  have hbefore : beforeEnd (us ++ [⟨.eof, "", Text.width text.toList⟩]) = us :=
    beforeEnd_append_eof (fun u hu => by simpa [Token.isEof] using (hus u hu).not_eof) rfl
  rw [hbefore] at hmem
  exact hus t hmem

/-! ## The parentheses that the text adds -/

mutual

/-- The tree with a group around each `or` that is an operand of an `and`, where the text has parentheses. -/
def grouped : Filter → Filter
  | .compare p op v => .compare p op v
  | .present p => .present p
  | .group f => .group (grouped f)
  | .logical c fs => .logical c (groupedAll c fs)

/-- The operands of a connective, each in a group where the text has parentheses around it. -/
def groupedAll (c : Connective) : List Filter → List Filter
  | [] => []
  | f :: fs =>
    (if c = .and ∧ isDisjunction f = true then .group (grouped f) else grouped f) :: groupedAll c fs

end

theorem groupedAll_eq_self {c : Connective} {fs : List Filter} (h : ∀ f ∈ fs, f.grouped = f)
    (hc : c = .and → ∀ f ∈ fs, f.isDisjunction = false) : groupedAll c fs = fs := by
  induction fs with
  | nil => rfl
  | cons f fs ih =>
    have hno : ¬ (c = .and ∧ isDisjunction f = true) := fun ⟨ha, hd⟩ => by
      rw [hc ha f List.mem_cons_self] at hd
      cases hd
    rw [groupedAll, if_neg hno, h f List.mem_cons_self,
      ih (fun g hg => h g (List.mem_cons_of_mem f hg))
        (fun ha g hg => hc ha g (List.mem_cons_of_mem f hg))]

/-- The text of a tree in normal form adds no parentheses. -/
theorem grouped_of_normal (h : f.Normal) : f.grouped = f := by
  induction h with
  | compare | present => rfl
  | group _ ih => rw [grouped, ih]
  | negation _ ih =>
    rw [grouped, groupedAll_eq_self (by simpa using ih) (fun h => by cases h)]
  | conjunction _ operands _ ih =>
    rw [grouped, groupedAll_eq_self ih (fun _ f hf => isDisjunction_of_isOperand (operands f hf))]
  | disjunction _ _ _ ih =>
    rw [grouped, groupedAll_eq_self ih (fun h => by cases h)]

/-- A tree whose connectives have operands: at least one under `and` and `or`, one under `not`. -/
inductive Filled : Filter → Prop
  | compare (p : AttrPath) (op : CompareOp) (v : Literal) : Filled (.compare p op v)
  | present (p : AttrPath) : Filled (.present p)
  | group {f : Filter} (h : Filled f) : Filled (.group f)
  | negation {f : Filter} (h : Filled f) : Filled (.logical .not [f])
  | joined {c : Connective} {fs : List Filter} (hc : c ≠ .not) (hne : fs ≠ [])
      (h : ∀ f ∈ fs, Filled f) : Filled (.logical c fs)

theorem Normal.filled (h : f.Normal) : f.Filled := by
  induction h with
  | compare p op v => exact .compare p op v
  | present p => exact .present p
  | group _ ih => exact .group ih
  | negation _ ih => exact .negation ih
  | conjunction two _ _ ih => exact .joined (by decide) (by rintro rfl; simp at two) ih
  | disjunction two _ _ ih => exact .joined (by decide) (by rintro rfl; simp at two) ih

/-! ## The text scans as the tokens of the tree -/

variable {P : List Token → Prop}

theorem scans_keyword {w : String} {kind : TokenKind} (hw : IsWord w.toList)
    (hfold : Text.foldCase w = w) (hk : TokenKind.ofKeyword w = kind) :
    Scans options w.toList (fun ts => ∃ t, ts = [t] ∧ t.kind = kind) := by
  apply (IsLexeme.keyword hw hfold hk).scans.imp
  rintro ts ⟨position, rfl⟩
  exact ⟨_, rfl, rfl⟩

theorem scans_name {s : String} (h : IsName options.keywordsCaseSensitive s) :
    Scans options s.toList (fun ts => ∃ t, ts = [t] ∧ t.kind = .name ∧ t.text = s) := by
  have hlexeme : IsLexeme options _ s.toList := .word h.1
  apply hlexeme.scans.imp
  rintro ts ⟨position, rfl⟩
  refine ⟨_, rfl, ?_, String.ofList_toList⟩
  show TokenKind.ofWord options (String.ofList s.toList) = .name
  rw [String.ofList_toList]
  exact ofWord_eq_name_iff.mpr h.2

theorem scans_path {p : AttrPath} (h : p.Writable options.keywordsCaseSensitive) :
    Scans options p.render.toList (SpellsPath · p) := by
  obtain ⟨attr, sub⟩ := p
  cases sub with
  | none =>
    apply (scans_name h.1).imp
    rintro ts ⟨t, rfl, ht, rfl⟩
    exact .plain ht
  | some sub =>
    have hsub := (scans_name (h.2 sub rfl)).sign (c := ':') rfl
    have hall := (scans_name h.1).append (by decide) hsub
    rw [show AttrPath.render ⟨attr, some sub⟩ = attr ++ ":" ++ sub from rfl, String.toList_append,
      String.toList_append, List.append_assoc]
    apply hall.imp
    rintro ts ⟨_, _, rfl, ⟨t, rfl, ht, rfl⟩, s, _, rfl, hs, u, rfl, hu, rfl⟩
    exact .qualified ht (.inl hs) hu

theorem scans_literal {v : Literal} (h : v.Writable) :
    Scans options v.render.toList (fun ts => ∃ t, ts = [t] ∧ SpellsLiteral t.kind v) := by
  have ofKind : ∀ kind : TokenKind, SpellsLiteral kind v →
      Scans options v.render.toList (fun ts => ∃ t, ts = [t] ∧ t.kind = kind) →
      Scans options v.render.toList (fun ts => ∃ t, ts = [t] ∧ SpellsLiteral t.kind v) := by
    intro kind hkind hscan
    apply hscan.imp
    rintro ts ⟨t, rfl, rfl⟩
    exact ⟨t, rfl, hkind⟩
  cases v with
  | string value =>
    apply ofKind (.string value) (.string value)
    have hlexeme : IsLexeme options _ _ := .string (spellsString_escapeChars value.toList)
    rw [String.ofList_toList] at hlexeme
    have htext : (Literal.string value).render.toList
        = '"' :: (Literal.escapeChars value.toList ++ ['"']) := by
      simp [Literal.render]
    rw [htext]
    apply hlexeme.scans.imp
    rintro ts ⟨position, rfl⟩
    exact ⟨_, rfl, rfl⟩
  | number lexeme =>
    apply ofKind (.number lexeme) (.number lexeme)
    have hlexeme : IsLexeme options _ lexeme.toList := .number h
    apply hlexeme.scans.imp
    rintro ts ⟨position, rfl⟩
    exact ⟨_, rfl, rfl⟩
  | bool value =>
    apply ofKind (.bool value) (.bool value)
    cases value
    · exact scans_keyword (w := "false") (isWord_of_all (by decide) (by decide)) (by decide +kernel) rfl
    · exact scans_keyword (w := "true") (isWord_of_all (by decide) (by decide)) (by decide +kernel) rfl
  | null =>
    exact ofKind .null .null
      (scans_keyword (w := "null") (isWord_of_all (by decide) (by decide)) (by decide +kernel) rfl)

theorem scans_operator (op : CompareOp) :
    Scans options op.keyword.toList (fun ts => ∃ t, ts = [t] ∧ t.kind = .compareOp op) := by
  refine scans_keyword ?_ ?_ ?_
  · cases op <;> exact isWord_of_all (by decide) (by decide)
  · cases op <;> decide +kernel
  · cases op <;> decide +kernel

theorem Scans.scope (h : Scans options cs P) :
    Scans options ('(' :: (cs ++ [')'])) (fun ts => ∃ o us c, ts = o :: us ++ [c] ∧
      o.kind = .openParen ∧ P us ∧ c.kind = .closeParen) := by
  have hclose : Scans options [')'] (fun ts => ∃ t, ts = [t] ∧ t.kind = .closeParen) := by
    have hlexeme : IsLexeme options _ [')'] := .punctuation rfl
    apply hlexeme.scans.imp
    rintro ts ⟨position, rfl⟩
    exact ⟨_, rfl, rfl⟩
  apply ((h.append (by decide) hclose).sign (c := '(') rfl).imp
  rintro ts ⟨o, _, rfl, ho, us, _, rfl, hp, c, rfl, hc⟩
  exact ⟨o, us, c, rfl, ho, hp, hc⟩

/-- The text of an operand of a connective, with the parentheses that the connective asks for. -/
theorem scans_operand {c : Connective} (h : Scans options f.render.toList (Spells · f.grouped)) :
    Scans options
      (if c = .and ∧ isDisjunction f = true then "(" ++ f.render ++ ")" else f.render).toList
      (Spells · (if c = .and ∧ isDisjunction f = true then .group f.grouped else f.grouped)) := by
  by_cases hc : c = .and ∧ isDisjunction f = true
  · rw [if_pos hc, if_pos hc, String.toList_append, String.toList_append]
    apply h.scope.imp
    rintro ts ⟨o, us, c, rfl, ho, hus, hc⟩
    exact .group ho hus hc
  · rw [if_neg hc, if_neg hc]
    exact h

theorem scans_joint {c : Connective} (hc : c ≠ .not) :
    Scans options c.keyword.toList (fun ts => ∃ t, ts = [t] ∧ t.kind = .joint c) := by
  cases c with
  | and => exact scans_keyword (w := "and") (isWord_of_all (by decide) (by decide)) (by decide +kernel) rfl
  | or => exact scans_keyword (w := "or") (isWord_of_all (by decide) (by decide)) (by decide +kernel) rfl
  | not => exact absurd rfl hc

/-- The texts of operands with the keyword of the connective between each two. -/
theorem scans_joined {c : Connective} (hc : c ≠ .not) {fs : List Filter} (hne : fs ≠ [])
    (h : ∀ f ∈ fs, Scans options f.render.toList (Spells · f.grouped)) :
    Scans options (String.intercalate (" " ++ c.keyword ++ " ") (renderAll c fs)).toList
      (Joined c · (groupedAll c fs)) := by
  induction fs with
  | nil => exact absurd rfl hne
  | cons f fs ih =>
    have hf := scans_operand (c := c) (h f List.mem_cons_self)
    cases fs with
    | nil =>
      rw [renderAll, renderAll, String.intercalate_singleton, groupedAll, groupedAll]
      exact hf.imp fun ts hts => .one hts
    | cons g gs =>
      have hgs := ih (List.cons_ne_nil g gs) (fun a ha => h a (List.mem_cons_of_mem f ha))
      have hkeyword : Scans options _ _ := scans_joint hc
      have hjoin := hkeyword.append (by decide) hgs.blank
      have hall := hf.append (by decide) hjoin.blank
      rw [renderAll, renderAll, String.intercalate_cons_cons, groupedAll, ← renderAll]
      have hjoint : (" " ++ c.keyword ++ " ").toList = ' ' :: (c.keyword.toList ++ [' ']) := by simp
      rw [String.toList_append, String.toList_append, hjoint, List.append_assoc, List.cons_append,
        List.append_assoc, List.singleton_append]
      apply hall.imp
      rintro ts ⟨us, _, rfl, hus, _, vs, rfl, ⟨t, rfl, ht⟩, hvs⟩
      exact .more hus ht hvs

/-- **The canonical text is read as the tree with its groups.** The tree may have any shape with operands under
    its connectives. -/
theorem scans_render (hf : f.Filled) (hw : f.Writable options.keywordsCaseSensitive) :
    Scans options f.render.toList (Spells · f.grouped) := by
  -- On the tree; each case writes the text as its parts and scans them one after the other.
  induction hf with
  | compare p op v =>
    cases hw with
    | compare hp hv =>
      have hoperator : Scans options _ _ := scans_operator op
      have hright := hoperator.append (by decide) (scans_literal hv).blank
      have hall := (scans_path hp).append (by decide) hright.blank
      have htext : (compare p op v).render.toList
          = p.render.toList ++ ' ' :: (op.keyword.toList ++ ' ' :: v.render.toList) := by
        simp [render]
      rw [htext]
      apply hall.imp
      rintro ts ⟨us, _, rfl, hus, _, _, rfl, ⟨o, rfl, ho⟩, l, rfl, hl⟩
      exact .compare hus ho hl
  | present p =>
    cases hw with
    | present hp =>
      have hpr : Scans options "pr".toList (fun ts => ∃ t, ts = [t] ∧ t.kind = .present) :=
        scans_keyword (isWord_of_all (by decide) (by decide)) (by decide +kernel) rfl
      have htext : (present p).render.toList = p.render.toList ++ ' ' :: "pr".toList := by
        simp [render]
      rw [htext]
      apply ((scans_path hp).append (by decide) hpr.blank).imp
      rintro ts ⟨us, _, rfl, hus, t, rfl, ht⟩
      exact .present hus ht
  | @group f _ ih =>
    cases hw with
    | group hw =>
      have htext : (group f).render.toList = '(' :: (f.render.toList ++ [')']) := by
        simp [render]
      rw [htext]
      apply (ih hw).scope.imp
      rintro ts ⟨o, us, c, rfl, ho, hus, hc⟩
      exact .group ho hus hc
  | @negation f _ ih =>
    cases hw with
    | logical hw =>
      have hnot : Scans options "not".toList (fun ts => ∃ t, ts = [t] ∧ t.kind = .not) :=
        scans_keyword (isWord_of_all (by decide) (by decide)) (by decide +kernel) rfl
      have hscope := (ih (hw f List.mem_cons_self)).scope
      have htext : (logical .not [f]).render.toList
          = "not".toList ++ ' ' :: '(' :: (f.render.toList ++ [')']) := by
        simp [render, renderAll]
      rw [htext]
      apply (hnot.append (by decide) hscope.blank).imp
      rintro ts ⟨_, _, rfl, ⟨n, rfl, hn⟩, o, us, c, rfl, ho, hus, hc⟩
      exact .negation hn ho hus hc
  | @joined c fs hc hne _ ih =>
    cases hw with
    | logical hw =>
      have hall := scans_joined hc hne (fun f hf => ih f hf (hw f hf))
      have htext : (logical c fs).render
          = String.intercalate (" " ++ c.keyword ++ " ") (renderAll c fs) := by
        cases c with
        | and | or => rfl
        | not => exact absurd rfl hc
      rw [htext]
      exact hall.imp fun ts hts => .joined hc hts

/-- Under limits that admit it, the canonical text of a tree in normal form is read as the tree. -/
theorem parse_render (hn : f.Normal) (hw : f.Writable options.keywordsCaseSensitive)
    (hlen : f.render.utf8ByteSize ≤ options.maxLength) (hd : f.depth ≤ options.maxDepth) :
    parse options f.render = .ok f := by
  obtain ⟨ts, htok, hspells⟩ := (scans_render hn.filled hw).tokenize hlen
  rw [grouped_of_normal hn] at hspells
  rw [parse, htok]
  refine parseTokens_eq_ok_iff.mpr ⟨terminated_append_eof ts rfl, hn, hd, ?_⟩
  rwa [beforeEnd_append_eof hspells.not_eof rfl]

/-- **The canonical text round-trips exactly on the normal form.** Under limits that admit the text of a tree
    and its depth, reading the text gives the tree back exactly when the tree is in normal form and can be
    written. Every tree that reading yields is one of those, so its text is read as the same tree. -/
theorem parse_render_eq_self_iff (options : Options) :
    (∀ f : Filter, f.render.utf8ByteSize ≤ options.maxLength → f.depth ≤ options.maxDepth →
      (parse options f.render = .ok f ↔ f.Normal ∧ f.Writable options.keywordsCaseSensitive)) ∧
    ∀ (text : String) (f : Filter), parse options text = .ok f →
      (f.Normal ∧ f.Writable options.keywordsCaseSensitive) ∧
      ∀ limits : Options, limits.keywordsCaseSensitive = options.keywordsCaseSensitive →
        f.render.utf8ByteSize ≤ limits.maxLength → f.depth ≤ limits.maxDepth →
        parse limits f.render = .ok f := by
  constructor
  · intro f hlen hd
    constructor
    · intro h
      obtain ⟨hn, hw, -⟩ := normal_and_writable_of_parse h
      exact ⟨hn, hw⟩
    · rintro ⟨hn, hw⟩
      exact parse_render hn hw hlen hd
  · intro text f h
    obtain ⟨hn, hw, -⟩ := normal_and_writable_of_parse h
    refine ⟨⟨hn, hw⟩, fun limits hcase hlen hd => ?_⟩
    rw [← hcase] at hw
    exact parse_render hn hw hlen hd

/-- A tree with every kind of node that reading makes, a string that needs escapes and a number in full. -/
theorem parse_render_eq_self_iff_nested :
    let f : Filter := .logical .and [
      .logical .not [.compare ⟨"name", some "familyName"⟩ .co (.string "\"*\\\n")],
      .group (.logical .or [.compare ⟨"x-1", none⟩ .gt (.number "-1.5e3"), .present ⟨"order", none⟩])]
    parse {} f.render = .ok f ∧ parse { maxLength := 90, maxDepth := 1 } f.render = .ok f := by
  intro f
  have hname : ∀ s ∈ ["name", "familyName", "x-1", "order"], IsName false s := by
    intro s hs
    simp only [List.mem_cons, List.not_mem_nil, or_false] at hs
    rcases hs with rfl | rfl | rfl | rfl <;>
      exact ⟨isWord_of_all (by decide) (by decide), by decide +kernel⟩
  have hnumber : IsNumber "-1.5e3" := by
    refine ⟨⟨['-'], ['1'], ['5'], some ⟨'e', [], ['3']⟩⟩, ⟨.inr (.inl rfl), by simp, by simp, by simp,
      ?_, ?_, ?_⟩, rfl, by decide +kernel, rfl⟩
    · simp
    · simp [Decimal.Numeral.IsSign]
    · simp
  have hn : f.Normal := by
    refine .conjunction (by simp) (by simp [isOperand]) ?_
    simp only [List.mem_cons, List.not_mem_nil, or_false, forall_eq_or_imp, forall_eq]
    refine ⟨.negation (.compare ..), .group (.disjunction (by simp) (by simp [isDisjunction]) ?_)⟩
    simp only [List.mem_cons, List.not_mem_nil, or_false, forall_eq_or_imp, forall_eq]
    exact ⟨.compare .., .present _⟩
  have hw : f.Writable false := by
    refine .logical ?_
    simp only [List.mem_cons, List.not_mem_nil, or_false, forall_eq_or_imp, forall_eq]
    refine ⟨.logical ?_, .group (.logical ?_)⟩
    · simp only [List.mem_singleton, forall_eq]
      exact .compare ⟨hname _ (by simp), fun s hs => by cases hs; exact hname _ (by simp)⟩ trivial
    · simp only [List.mem_cons, List.not_mem_nil, or_false, forall_eq_or_imp, forall_eq]
      exact ⟨.compare ⟨hname _ (by simp), fun s hs => by cases hs⟩ hnumber,
        .present ⟨hname _ (by simp), fun s hs => by cases hs⟩⟩
  have hread : parse {} f.render = .ok f :=
    ((parse_render_eq_self_iff {}).1 f (by decide +kernel) (by decide +kernel)).mpr ⟨hn, hw⟩
  exact ⟨hread, ((parse_render_eq_self_iff {}).2 f.render f hread).2 _ rfl (by decide +kernel)
    (by decide +kernel)⟩

end Filter

end ScimLdap
