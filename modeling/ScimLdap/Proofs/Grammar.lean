import ScimLdap.Filter.Token
import ScimLdap.Proofs.Tree

/-!
# The grammar — which tokens spell which tree

The grammar of filters as a relation between tokens and trees, with nothing in it of how reading goes about
it. It says of every tree how it may be written and leaves open whether the tree has the shape that reading
yields: `Spells` holds of an `and` under an `and`, too, and `Normal` is what excludes it.

Positions are no part of the grammar, and neither are the texts of tokens other than names.
-/

namespace ScimLdap.Filter

/-- The token that joins the operands of a connective. -/
def TokenKind.joint : Connective → TokenKind
  | .and => .and
  | .or => .or
  | .not => .not

/-- The tokens of a path: a name, or two names with a separator between them. -/
inductive SpellsPath : List Token → AttrPath → Prop
  | plain {t : Token} (ht : t.kind = .name) : SpellsPath [t] ⟨t.text, none⟩
  | qualified {t s u : Token} (ht : t.kind = .name) (hs : s.kind = .colon ∨ s.kind = .dot)
      (hu : u.kind = .name) : SpellsPath [t, s, u] ⟨t.text, some u.text⟩

/-- The token of a literal, which is of one of four kinds and holds the value. -/
inductive SpellsLiteral : TokenKind → Literal → Prop
  | string (value : String) : SpellsLiteral (.string value) (.string value)
  | number (lexeme : String) : SpellsLiteral (.number lexeme) (.number lexeme)
  | bool (value : Bool) : SpellsLiteral (.bool value) (.bool value)
  | null : SpellsLiteral .null .null

theorem spellsLiteral_iff {kind : TokenKind} {v : Literal} :
    SpellsLiteral kind v ↔ kind.literal? = some v := by
  constructor
  · rintro (_ | _ | _ | _) <;> rfl
  · intro h
    cases kind with
    | string | number | bool | null =>
      cases h
      constructor
    | _ => cases h

mutual

/-- The tokens of a filter. -/
inductive Spells : List Token → Filter → Prop
  | present {ts : List Token} {t : Token} {p : AttrPath} (hp : SpellsPath ts p)
      (ht : t.kind = .present) : Spells (ts ++ [t]) (.present p)
  | compare {ts : List Token} {o v : Token} {p : AttrPath} {op : CompareOp} {value : Literal}
      (hp : SpellsPath ts p) (ho : o.kind = .compareOp op) (hv : SpellsLiteral v.kind value) :
      Spells (ts ++ [o, v]) (.compare p op value)
  | group {o c : Token} {ts : List Token} {f : Filter} (ho : o.kind = .openParen) (h : Spells ts f)
      (hc : c.kind = .closeParen) : Spells (o :: ts ++ [c]) (.group f)
  | negation {n o c : Token} {ts : List Token} {f : Filter} (hn : n.kind = .not)
      (ho : o.kind = .openParen) (h : Spells ts f) (hc : c.kind = .closeParen) :
      Spells (n :: o :: ts ++ [c]) (.logical .not [f])
  | joined {c : Connective} {ts : List Token} {fs : List Filter} (hc : c ≠ .not)
      (h : Joined c ts fs) : Spells ts (.logical c fs)

/-- The tokens of operands, with the token of the connective between each two. -/
inductive Joined : Connective → List Token → List Filter → Prop
  | one {c : Connective} {ts : List Token} {f : Filter} (h : Spells ts f) : Joined c ts [f]
  | more {c : Connective} {ts us : List Token} {t : Token} {f : Filter} {fs : List Filter}
      (h : Spells ts f) (ht : t.kind = .joint c) (hs : Joined c us fs) :
      Joined c (ts ++ t :: us) (f :: fs)

end

theorem Joined.ne_nil {c : Connective} {ts : List Token} {fs : List Filter} (h : Joined c ts fs) :
    fs ≠ [] := by
  cases h with
  | one | more => exact List.cons_ne_nil _ _

theorem Joined.snoc {c : Connective} {us : List Token} {t : Token} {f : Filter}
    (ht : t.kind = .joint c) (hf : Spells us f) :
    ∀ {ts : List Token} {fs : List Filter}, Joined c ts fs → Joined c (ts ++ t :: us) (fs ++ [f])
  | _, _, .one h => .more h ht (.one hf)
  | _, _, .more h ht' hs => by
    rw [List.append_assoc]
    exact .more h ht' (Joined.snoc ht hf hs)

/-- Operands that a connective joins spell what it combines them to, one alone included. -/
theorem Joined.combine {c : Connective} {ts : List Token} {fs : List Filter} (hc : c ≠ .not)
    (h : Joined c ts fs) : Spells ts (combine c fs) := by
  cases h with
  | one h => exact h
  | more h ht hs =>
    rw [combine_of_two (by have := List.length_pos_iff.mpr hs.ne_nil; simp; omega)]
    exact .joined hc (.more h ht hs)

/-! ## The end of the text is outside the grammar

Reading stops at the first token that marks the end, so that none of a filter's own tokens does is what lets
the tokens before it be compared with the grammar. -/

theorem SpellsPath.not_eof {ts : List Token} {p : AttrPath} (h : SpellsPath ts p) :
    ∀ t ∈ ts, t.isEof = false := by
  cases h with
  | plain ht => simp [Token.isEof, ht]
  | qualified ht hs hu => rcases hs with hs | hs <;> simp [Token.isEof, ht, hs, hu]

theorem not_eof_of_literal {t : Token} {v : Literal} (h : SpellsLiteral t.kind v) :
    t.isEof = false := by
  cases hk : t.kind with
  | eof => rw [hk] at h; cases h
  | _ => simp [Token.isEof, hk]

mutual

/-- No token of a filter marks the end of the text. -/
theorem Spells.not_eof : ∀ {ts : List Token} {f : Filter}, Spells ts f → ∀ t ∈ ts, t.isEof = false
  | _, _, .present hp ht => by
    intro u hu
    rcases List.mem_append.mp hu with hu | hu
    · exact hp.not_eof u hu
    · rw [List.mem_singleton.mp hu]; simp [Token.isEof, ht]
  | _, _, .compare hp ho hv => by
    intro u hu
    rcases List.mem_append.mp hu with hu | hu
    · exact hp.not_eof u hu
    · simp only [List.mem_cons, List.not_mem_nil, or_false] at hu
      rcases hu with rfl | rfl
      · simp [Token.isEof, ho]
      · exact not_eof_of_literal hv
  | _, _, .group ho h hc => by
    have ih := Spells.not_eof h
    simp only [List.cons_append, List.mem_cons, List.mem_append, List.not_mem_nil, or_false]
    rintro u (rfl | hu | rfl)
    · simp [Token.isEof, ho]
    · exact ih u hu
    · simp [Token.isEof, hc]
  | _, _, .negation hn ho h hc => by
    have ih := Spells.not_eof h
    simp only [List.cons_append, List.mem_cons, List.mem_append, List.not_mem_nil, or_false]
    rintro u (rfl | rfl | hu | rfl)
    · simp [Token.isEof, hn]
    · simp [Token.isEof, ho]
    · exact ih u hu
    · simp [Token.isEof, hc]
  | _, _, .joined _ h => Joined.not_eof h

theorem Joined.not_eof : ∀ {c : Connective} {ts : List Token} {fs : List Filter}, Joined c ts fs →
    ∀ t ∈ ts, t.isEof = false
  | _, _, _, .one h => Spells.not_eof h
  | c, _, _, .more h ht hs => by
    have ih := Spells.not_eof h
    have ihs := Joined.not_eof hs
    simp only [List.mem_append, List.mem_cons]
    rintro u (hu | rfl | hu)
    · exact ih u hu
    · cases c <;> simp [Token.isEof, ht, TokenKind.joint]
    · exact ihs u hu

end

end ScimLdap.Filter
