import ScimLdap.Proofs.Runs

/-!
# RFC 4515 — search filters as text

The grammar of RFC 4515 as a relation between characters and filters, production by production, and the
proof that it is unambiguous: a text has at most one filter, and no filter's text is the front part of
another's (`Reads.unique`). The relation knows nothing of how this library writes filters; it is the side on
which a directory stands.

Values are octets on the wire: a character stands for the octets of its UTF-8 form, an escape for the one
octet that its two digits name. `Encodes` says that a text stands for the octets of a string.

Two things follow the RFC's prose and not its productions. `attr=*` is presence and no substring match, and
the ends of a substring match that are absent are empty here. What stands before `:=` is kept as it is
written, as the productions leave open whether `:dn` there is the flag or the name of a rule.
-/

namespace ScimLdap.Ldap

open Text (Stops stops_cons append_inj_of_stops ne_of_outside)

/-! ## Values -/

/-- The octets of characters in UTF-8. -/
def octetsOf (cs : List Char) : List UInt8 :=
  cs.flatMap String.utf8EncodeChar

/-- The number that a hexadecimal digit stands for, in either case. -/
def hexDigit? (c : Char) : Option Nat :=
  if c.isDigit then some (c.toNat - '0'.toNat)
  else if 'a' ≤ c ∧ c ≤ 'f' then some (c.toNat - 'a'.toNat + 10)
  else if 'A' ≤ c ∧ c ≤ 'F' then some (c.toNat - 'A'.toNat + 10)
  else none

/-- The characters that stand for themselves in a value. -/
def isNormal (c : Char) : Bool :=
  c != '\x00' && c != '(' && c != ')' && c != '*' && c != '\\'

/-- `valueencoding`: the octets that a value's text stands for. -/
inductive Octets : List Char → List UInt8 → Prop
  | nil : Octets [] []
  | normal {c : Char} {cs : List Char} {bs : List UInt8} (hc : isNormal c = true) (h : Octets cs bs) :
      Octets (c :: cs) (String.utf8EncodeChar c ++ bs)
  | escaped {x y : Char} {a b : Nat} {cs : List Char} {bs : List UInt8} (hx : hexDigit? x = some a)
      (hy : hexDigit? y = some b) (h : Octets cs bs) :
      Octets ('\\' :: x :: y :: cs) (UInt8.ofNat (16 * a + b) :: bs)

/-- The text stands for the octets of the string. -/
def Encodes (cs : List Char) (value : String) : Prop :=
  Octets cs (octetsOf value.toList)

/-! ## Attributes -/

/-- The characters of a key string after its first. -/
def isKeyChar (c : Char) : Bool :=
  c.isAlphanum || c == '-'

/-- `keystring`: a letter, then letters, digits and hyphens. -/
def IsKeyString (cs : List Char) : Prop :=
  ∃ c ds, cs = c :: ds ∧ c.isAlpha = true ∧ ∀ d ∈ ds, isKeyChar d = true

/-- Whether a text is a key string. -/
def isKeyString : List Char → Bool
  | [] => false
  | c :: cs => c.isAlpha && cs.all isKeyChar

theorem isKeyString_iff {cs : List Char} : isKeyString cs = true ↔ IsKeyString cs := by
  cases cs with
  | nil => simp [isKeyString, IsKeyString]
  | cons c cs =>
    rw [isKeyString, Bool.and_eq_true, List.all_eq_true]
    constructor
    · rintro ⟨hc, hcs⟩
      exact ⟨c, cs, rfl, hc, hcs⟩
    · rintro ⟨d, ds, h, hd, hds⟩
      cases h
      exact ⟨hd, hds⟩

instance (cs : List Char) : Decidable (IsKeyString cs) :=
  decidable_of_iff _ isKeyString_iff

/-- `number`: digits without a leading zero. -/
def IsArc (cs : List Char) : Prop :=
  cs ≠ [] ∧ (∀ c ∈ cs, c.isDigit = true) ∧ (cs.head? = some '0' → cs = ['0'])

/-- `numericoid`: two numbers or more with points between them. -/
inductive IsNumericOid : List Char → Prop
  | two {as bs : List Char} (ha : IsArc as) (hb : IsArc bs) : IsNumericOid (as ++ '.' :: bs)
  | more {as cs : List Char} (ha : IsArc as) (h : IsNumericOid cs) : IsNumericOid (as ++ '.' :: cs)

/-- `oid`. -/
def IsOid (cs : List Char) : Prop :=
  IsKeyString cs ∨ IsNumericOid cs

/-- `attributedescription`: an `oid` and its options. -/
inductive IsAttribute : List Char → Prop
  | oid {cs : List Char} (h : IsOid cs) : IsAttribute cs
  | option {cs os : List Char} (h : IsAttribute cs) (hne : os ≠ [])
      (ho : ∀ c ∈ os, isKeyChar c = true) : IsAttribute (cs ++ ';' :: os)

/-- `[dnattrs]`: nothing, or `:dn` in any case. -/
def IsDnFlag (cs : List Char) : Prop :=
  cs = [] ∨ ∃ x ∈ ['d', 'D'], ∃ y ∈ ['n', 'N'], cs = [':', x, y]

/-- What an extensible match is about: an attribute, a flag, a rule. Not both of attribute and rule may be
    absent. -/
inductive IsSubject : List Char → Prop
  | plain {as ds : List Char} (ha : IsAttribute as) (hd : IsDnFlag ds) : IsSubject (as ++ ds)
  | both {as ds rs : List Char} (ha : IsAttribute as) (hd : IsDnFlag ds) (hr : IsOid rs) :
      IsSubject (as ++ ds ++ ':' :: rs)
  | rule {ds rs : List Char} (hd : IsDnFlag ds) (hr : IsOid rs) : IsSubject (ds ++ ':' :: rs)

/-! ## Filters -/

/-- `filtertype`. -/
inductive MatchType where
  | equal
  | approx
  | atLeast
  | atMost
  deriving DecidableEq, Repr

def MatchType.chars : MatchType → List Char
  | equal => ['=']
  | approx => ['~', '=']
  | atLeast => ['>', '=']
  | atMost => ['<', '=']

/-- A filter as the directory understands it. -/
inductive DirectoryFilter where
  | and (filters : List DirectoryFilter)
  | or (filters : List DirectoryFilter)
  | not (filter : DirectoryFilter)
  | simple (type : MatchType) (name value : String)
  | present (name : String)
  /-- The parts of a value in their order: one at its start, some inside, one at its end. -/
  | substrings (name initial : String) (inner : List String) (final : String)
  | extensible (subject value : String)
  deriving Repr

/-- Values with stars between them. -/
inductive Pieces : List Char → List String → Prop
  | one {cs : List Char} {v : String} (h : Encodes cs v) : Pieces cs [v]
  | more {cs ds : List Char} {v : String} {vs : List String} (h : Encodes cs v) (hs : Pieces ds vs) :
      Pieces (cs ++ '*' :: ds) (v :: vs)

/-- `item`, without its parentheses. -/
inductive ReadsItem : List Char → DirectoryFilter → Prop
  | simple {as cs : List Char} {type : MatchType} {v : String} (ha : IsAttribute as)
      (hv : Encodes cs v) : ReadsItem (as ++ type.chars ++ cs) (.simple type (String.ofList as) v)
  | present {as : List Char} (ha : IsAttribute as) :
      ReadsItem (as ++ ['=', '*']) (.present (String.ofList as))
  | substrings {as cs : List Char} {initial final : String} {inner : List String}
      (ha : IsAttribute as) (hp : Pieces cs (initial :: inner ++ [final])) (hne : cs ≠ ['*']) :
      ReadsItem (as ++ '=' :: cs) (.substrings (String.ofList as) initial inner final)
  | extensible {ss cs : List Char} {v : String} (hs : IsSubject ss) (hv : Encodes cs v) :
      ReadsItem (ss ++ ':' :: '=' :: cs) (.extensible (String.ofList ss) v)

mutual

/-- `filter`. -/
inductive Reads : List Char → DirectoryFilter → Prop
  | and {cs : List Char} {fs : List DirectoryFilter} (h : ReadsAll cs fs) (hne : fs ≠ []) :
      Reads ('(' :: '&' :: (cs ++ [')'])) (.and fs)
  | or {cs : List Char} {fs : List DirectoryFilter} (h : ReadsAll cs fs) (hne : fs ≠ []) :
      Reads ('(' :: '|' :: (cs ++ [')'])) (.or fs)
  | not {cs : List Char} {f : DirectoryFilter} (h : Reads cs f) :
      Reads ('(' :: '!' :: (cs ++ [')'])) (.not f)
  | item {cs : List Char} {f : DirectoryFilter} (h : ReadsItem cs f) : Reads ('(' :: (cs ++ [')'])) f

/-- `*filter`. -/
inductive ReadsAll : List Char → List DirectoryFilter → Prop
  | nil : ReadsAll [] []
  | cons {cs ds : List Char} {f : DirectoryFilter} {fs : List DirectoryFilter} (h : Reads cs f)
      (hs : ReadsAll ds fs) : ReadsAll (cs ++ ds) (f :: fs)

end

/-! ## Values have one reading -/

section
variable {as bs cs ds r s : List Char} {v w : String}

theorem octetsOf_inj (h : octetsOf cs = octetsOf ds) : cs = ds := by
  have hbytes : cs.utf8Encode = ds.utf8Encode := congrArg List.toByteArray h
  have hstring : String.ofList cs = String.ofList ds := String.toByteArray_inj.mp hbytes
  exact String.ofList_injective hstring

theorem octets_unique {xs ys : List UInt8} (hx : Octets cs xs) (hy : Octets cs ys) : xs = ys := by
  induction hx generalizing ys with
  | nil => cases hy; rfl
  | normal hc _ ih =>
    cases hy with
    | normal _ h => rw [ih h]
    | escaped => exact absurd hc (by decide)
  | escaped hx hy _ ih =>
    cases hy with
    | normal hc => exact absurd hc (by decide)
    | escaped hx' hy' h =>
      rw [hx] at hx'
      rw [hy] at hy'
      cases hx'
      cases hy'
      rw [ih h]

theorem Encodes.unique (hv : Encodes cs v) (hw : Encodes cs w) : v = w :=
  String.toList_inj.mp (octetsOf_inj (octets_unique hv hw))

/-- The characters of a value's text: all but those that end it. -/
def isValueChar (c : Char) : Bool :=
  c != '(' && c != ')' && c != '*'

theorem isValueChar_of_hexDigit? {c : Char} {n : Nat} (h : hexDigit? c = some n) :
    isValueChar c = true := by
  have hne : ∀ d, hexDigit? d = none → c ≠ d := by
    rintro d hd rfl
    rw [hd] at h
    cases h
  simp only [isValueChar, Bool.and_eq_true, bne_iff_ne]
  exact ⟨⟨hne '(' rfl, hne ')' rfl⟩, hne '*' rfl⟩

theorem Octets.isValueChar {xs : List UInt8} (h : Octets cs xs) :
    ∀ c ∈ cs, isValueChar c = true := by
  induction h with
  | nil => exact fun c hc => absurd hc List.not_mem_nil
  | normal hc _ ih =>
    intro d hd
    rcases List.mem_cons.mp hd with rfl | hd
    · simp only [isNormal, Bool.and_eq_true] at hc
      simp [Ldap.isValueChar, hc]
    · exact ih d hd
  | escaped hx hy _ ih =>
    intro d hd
    simp only [List.mem_cons] at hd
    rcases hd with rfl | rfl | rfl | hd
    · decide
    · exact isValueChar_of_hexDigit? hx
    · exact isValueChar_of_hexDigit? hy
    · exact ih d hd

theorem Encodes.isValueChar (h : Encodes cs v) : ∀ c ∈ cs, isValueChar c = true :=
  Octets.isValueChar h

theorem Pieces.ne_nil {vs : List String} (h : Pieces cs vs) : vs ≠ [] := by
  cases h with
  | one | more => exact List.cons_ne_nil _ _

theorem Pieces.unique {vs ws : List String} (hv : Pieces cs vs) (hw : Pieces cs ws) : vs = ws := by
  induction hv generalizing ws with
  | one h =>
    cases hw with
    | one h' => rw [h.unique h']
    | more h' hs' => exact absurd (h.isValueChar '*' (by simp)) (by decide)
  | @more as bs v vs h hs ih =>
    generalize htext : as ++ '*' :: bs = text at hw
    cases hw with
    | one h' =>
      rw [← htext] at h'
      exact absurd (h'.isValueChar '*' (by simp)) (by decide)
    | more h' hs' =>
      -- No value holds a star, so both cut the text at its first.
      have hstop : ∀ r, Stops Ldap.isValueChar ('*' :: r) := stops_cons (by decide)
      obtain ⟨rfl, hrest⟩ :=
        append_inj_of_stops h.isValueChar (hstop _) h'.isValueChar (hstop _) htext
      cases hrest
      rw [h.unique h', ih hs']

theorem Octets.eq_nil {xs : List UInt8} (h : Octets cs xs) (hx : xs = []) : cs = [] := by
  cases h with
  | nil => rfl
  | normal => exact absurd (List.append_eq_nil_iff.mp hx).1 String.utf8EncodeChar_ne_nil
  | escaped => cases hx

theorem Encodes.eq_nil (h : Encodes cs "") : cs = [] :=
  Octets.eq_nil h rfl

theorem encodes_nil : Encodes [] "" :=
  .nil

theorem Pieces.of_empty (h : Pieces cs ["", ""]) : cs = ['*'] := by
  cases h with
  | more h hs =>
    cases hs with
    | one h' =>
      rw [h.eq_nil, h'.eq_nil]
      rfl
    | more _ hs' => exact absurd rfl hs'.ne_nil

/-! ## Items have one reading

An item is cut at its first `=`. What stands before it is an attribute, or it ends with a mark that no
attribute can hold and that says which item it is. -/

def isAttributeChar (c : Char) : Bool :=
  isKeyChar c || c == '.' || c == ';'

theorem isAttributeChar_of_isKeyChar {c : Char} (h : isKeyChar c = true) :
    isAttributeChar c = true := by
  simp [isAttributeChar, h]

theorem IsArc.isAttributeChar (h : IsArc cs) : ∀ c ∈ cs, isAttributeChar c = true := by
  intro c hc
  simp [Ldap.isAttributeChar, isKeyChar, Char.isAlphanum, h.2.1 c hc]

theorem IsNumericOid.isAttributeChar (h : IsNumericOid cs) : ∀ c ∈ cs, isAttributeChar c = true := by
  induction h with
  | two ha hb =>
    simp only [List.mem_append, List.mem_cons]
    rintro c (hc | rfl | hc)
    · exact ha.isAttributeChar c hc
    · decide
    · exact hb.isAttributeChar c hc
  | more ha _ ih =>
    simp only [List.mem_append, List.mem_cons]
    rintro c (hc | rfl | hc)
    · exact ha.isAttributeChar c hc
    · decide
    · exact ih c hc

theorem IsKeyString.isKeyChar (h : IsKeyString cs) : ∀ c ∈ cs, isKeyChar c = true := by
  obtain ⟨c, ds, rfl, hc, hds⟩ := h
  intro d hd
  rcases List.mem_cons.mp hd with rfl | hd
  · simp [Ldap.isKeyChar, Char.isAlphanum, hc]
  · exact hds d hd

theorem IsOid.isAttributeChar (h : IsOid cs) : ∀ c ∈ cs, isAttributeChar c = true := by
  rcases h with h | h
  · exact fun c hc => isAttributeChar_of_isKeyChar (h.isKeyChar c hc)
  · exact h.isAttributeChar

theorem IsAttribute.isAttributeChar (h : IsAttribute cs) : ∀ c ∈ cs, isAttributeChar c = true := by
  induction h with
  | oid h => exact h.isAttributeChar
  | option _ _ ho ih =>
    simp only [List.mem_append, List.mem_cons]
    rintro c (hc | rfl | hc)
    · exact ih c hc
    · decide
    · exact isAttributeChar_of_isKeyChar (ho c hc)

/-- The characters of an extensible match's subject. -/
theorem IsSubject.chars (h : IsSubject cs) :
    ∀ c ∈ cs, isAttributeChar c = true ∨ c = ':' := by
  have hflag : ∀ {fs : List Char}, IsDnFlag fs → ∀ c ∈ fs, Ldap.isAttributeChar c = true ∨ c = ':' := by
    rintro fs (rfl | ⟨x, hx, y, hy, rfl⟩) c hc
    · exact absurd hc List.not_mem_nil
    · have hd : ∀ z ∈ ['d', 'D'], Ldap.isAttributeChar z = true := List.all_eq_true.mp rfl
      have hn : ∀ z ∈ ['n', 'N'], Ldap.isAttributeChar z = true := List.all_eq_true.mp rfl
      simp only [List.mem_cons, List.not_mem_nil, or_false] at hc
      rcases hc with rfl | rfl | rfl
      · exact .inr rfl
      · exact .inl (hd _ hx)
      · exact .inl (hn _ hy)
  intro c hc
  cases h with
  | plain ha hd =>
    rcases List.mem_append.mp hc with hc | hc
    · exact .inl (ha.isAttributeChar c hc)
    · exact hflag hd c hc
  | both ha hd hr =>
    simp only [List.mem_append, List.mem_cons] at hc
    rcases hc with (hc | hc) | hc | hc
    · exact .inl (ha.isAttributeChar c hc)
    · exact hflag hd c hc
    · exact .inr hc
    · exact .inl (hr.isAttributeChar c hc)
  | rule hd hr =>
    simp only [List.mem_append, List.mem_cons] at hc
    rcases hc with hc | hc | hc
    · exact hflag hd c hc
    · exact .inr hc
    · exact .inl (hr.isAttributeChar c hc)

/-- The filter of an attribute and the values between the stars of its text. -/
def ofPieces (name : String) : List String → DirectoryFilter
  | [v] => .simple .equal name v
  | ["", ""] => .present name
  | vs => .substrings name (vs.headD "") vs.tail.dropLast (vs.tail.getLastD "")

/-- The filter of a mark before the `=`. -/
def ofMark (mark : Char) (subject value : String) : DirectoryFilter :=
  match mark with
  | '~' => .simple .approx subject value
  | '>' => .simple .atLeast subject value
  | '<' => .simple .atMost subject value
  | _ => .extensible subject value

def marks : List Char :=
  ['~', '>', '<', ':']

theorem not_isAttributeChar_of_mem_marks {m : Char} (hm : m ∈ marks) : isAttributeChar m = false := by
  have hall : ∀ m ∈ marks, (!isAttributeChar m) = true := List.all_eq_true.mp rfl
  simpa using hall m hm

/-- What an item is, by what stands before its first `=` and what after. -/
inductive Cut : List Char → List Char → DirectoryFilter → Prop
  | plain {as cs : List Char} {vs : List String} (ha : ∀ c ∈ as, isAttributeChar c = true)
      (hp : Pieces cs vs) : Cut as cs (ofPieces (String.ofList as) vs)
  | marked {ss cs : List Char} {m : Char} {v : String} (hm : m ∈ marks)
      (hs : ∀ c ∈ ss, isAttributeChar c = true ∨ c = ':') (hv : Encodes cs v) :
      Cut (ss ++ [m]) cs (ofMark m (String.ofList ss) v)

def isLeadChar (c : Char) : Bool :=
  isAttributeChar c || marks.contains c

theorem Cut.isLeadChar {f : DirectoryFilter} (h : Cut as cs f) : ∀ c ∈ as, isLeadChar c = true := by
  intro c hc
  cases h with
  | plain ha => simp [Ldap.isLeadChar, ha c hc]
  | marked hm hs =>
    have hmark : c ∈ marks → Ldap.isLeadChar c = true := fun h => by simp [Ldap.isLeadChar, h]
    rcases List.mem_append.mp hc with hc | hc
    · rcases hs c hc with hc | rfl
      · simp [Ldap.isLeadChar, hc]
      · exact hmark (by decide)
    · rw [List.mem_singleton] at hc
      exact hmark (hc ▸ hm)

theorem Cut.unique {f g : DirectoryFilter} (hf : Cut as cs f) (hg : Cut as cs g) : f = g := by
  have hclash : ∀ {ss : List Char} {m : Char}, m ∈ marks → ¬∀ c ∈ ss ++ [m], isAttributeChar c = true := by
    intro ss m hm h
    exact ne_of_outside (h m (by simp)) (not_isAttributeChar_of_mem_marks hm) rfl
  generalize hlead : as = lead at hg
  cases hf with
  | plain ha hp =>
    cases hg with
    | plain _ hp' => rw [hlead, hp.unique hp']
    | marked hm => exact absurd (hlead ▸ ha) (hclash hm)
  | marked hm hs hv =>
    cases hg with
    | plain ha => exact absurd (hlead ▸ ha) (hclash hm)
    | marked hm' hs' hv' =>
      obtain ⟨rfl, hlast⟩ := List.append_inj' hlead rfl
      cases hlast
      rw [hv.unique hv']

/-- An item is cut at its first `=`. -/
theorem ReadsItem.cut {f : DirectoryFilter} (h : ReadsItem cs f) :
    ∃ lead rest, cs = lead ++ '=' :: rest ∧ Cut lead rest f := by
  cases h with
  | @simple as cs type v ha hv =>
    have hmarked : ∀ m ∈ marks, Cut (as ++ [m]) cs (ofMark m (String.ofList as) v) :=
      fun m hm => .marked hm (fun c hc => .inl (ha.isAttributeChar c hc)) hv
    cases type with
    | equal => exact ⟨as, cs, by simp [MatchType.chars], .plain ha.isAttributeChar (.one hv)⟩
    | approx => exact ⟨_, cs, by simp [MatchType.chars], hmarked '~' (by decide)⟩
    | atLeast => exact ⟨_, cs, by simp [MatchType.chars], hmarked '>' (by decide)⟩
    | atMost => exact ⟨_, cs, by simp [MatchType.chars], hmarked '<' (by decide)⟩
  | present ha =>
    exact ⟨_, ['*'], rfl, .plain ha.isAttributeChar (.more encodes_nil (.one encodes_nil))⟩
  | @substrings as cs initial final inner ha hp hne =>
    refine ⟨as, cs, rfl, ?_⟩
    -- One star with nothing around it would be presence, and the production leaves it out.
    have hfilter : ofPieces (String.ofList as) (initial :: inner ++ [final])
        = .substrings (String.ofList as) initial inner final := by
      unfold ofPieces
      split
      · next h => simp at h
      · next h =>
        rw [h] at hp
        exact absurd hp.of_empty hne
      · simp
    rw [← hfilter]
    exact .plain ha.isAttributeChar hp
  | @extensible ss cs v hs hv =>
    exact ⟨ss ++ [':'], cs, by simp, .marked (m := ':') (by decide) hs.chars hv⟩

theorem ReadsItem.unique {f g : DirectoryFilter} (hf : ReadsItem cs f) (hg : ReadsItem cs g) :
    f = g := by
  obtain ⟨lead, rest, rfl, hcut⟩ := hf.cut
  obtain ⟨lead', rest', htext, hcut'⟩ := hg.cut
  have hstop : ∀ r, Stops isLeadChar ('=' :: r) := stops_cons (by decide)
  obtain ⟨rfl, hrest⟩ :=
    append_inj_of_stops hcut.isLeadChar (hstop _) hcut'.isLeadChar (hstop _) htext
  cases hrest
  exact hcut.unique hcut'

/-! ## Filters have one reading

The sign after the parenthesis says which production applies, as no item begins with one. An item's text has
no parentheses, so it ends at the first; the others end where their operands do. -/

def isItemChar (c : Char) : Bool :=
  c != '(' && c != ')'

theorem Pieces.isItemChar {vs : List String} (h : Pieces cs vs) : ∀ c ∈ cs, isItemChar c = true := by
  have hvalue : ∀ {ds : List Char} {w : String}, Encodes ds w → ∀ c ∈ ds, Ldap.isItemChar c = true := by
    intro ds w hw c hc
    have := hw.isValueChar c hc
    rw [Ldap.isValueChar, Bool.and_eq_true] at this
    exact this.1
  induction h with
  | one h => exact hvalue h
  | more h _ ih =>
    intro c hc
    simp only [List.mem_append, List.mem_cons] at hc
    rcases hc with hc | rfl | hc
    · exact hvalue h c hc
    · decide
    · exact ih c hc

theorem isItemChar_of_isLeadChar {c : Char} (h : isLeadChar c = true) : isItemChar c = true := by
  have hne : ∀ d, isLeadChar d = false → c ≠ d := fun d hd => ne_of_outside h hd
  simp only [isItemChar, Bool.and_eq_true, bne_iff_ne]
  exact ⟨hne '(' rfl, hne ')' rfl⟩

theorem ReadsItem.isItemChar {f : DirectoryFilter} (h : ReadsItem cs f) :
    ∀ c ∈ cs, isItemChar c = true := by
  obtain ⟨lead, rest, rfl, hcut⟩ := h.cut
  have hrest : ∃ vs, Pieces rest vs := by
    cases hcut with
    | plain _ hp => exact ⟨_, hp⟩
    | marked _ _ hv => exact ⟨_, .one hv⟩
  obtain ⟨vs, hp⟩ := hrest
  intro c hc
  simp only [List.mem_append, List.mem_cons] at hc
  rcases hc with hc | rfl | hc
  · exact isItemChar_of_isLeadChar (hcut.isLeadChar c hc)
  · decide
  · exact hp.isItemChar c hc

/-- No item begins with the sign of a connective. -/
theorem ReadsItem.append_ne {f : DirectoryFilter} (h : ReadsItem cs f) (sign : Char)
    (hlead : isLeadChar sign = false) (hne : sign ≠ '=') (r s : List Char) : cs ++ r ≠ sign :: s := by
  obtain ⟨lead, rest, rfl, hcut⟩ := h.cut
  intro htext
  cases lead with
  | nil =>
    cases htext
    exact hne rfl
  | cons c lead =>
    cases htext
    exact ne_of_outside (hcut.isLeadChar sign List.mem_cons_self) hlead rfl

theorem Reads.head {f : DirectoryFilter} (h : Reads cs f) : ∃ ds, cs = '(' :: ds := by
  cases h with
  | and | or | not | item => exact ⟨_, rfl⟩

mutual

/-- A text has at most one filter at its front. -/
theorem Reads.unique : ∀ {cs ds r s : List Char} {f g : DirectoryFilter}, Reads cs f → Reads ds g →
    cs ++ r = ds ++ s → f = g ∧ r = s
  | _, _, _, _, _, _, .and hf _, hg, htext => by
    cases hg with
    | and hg =>
      obtain ⟨rfl, hr⟩ := ReadsAll.unique hf hg (by simpa using htext)
      exact ⟨rfl, hr⟩
    | or | not => simp at htext
    | item hg => exact absurd (by simpa using htext.symm) (hg.append_ne '&' rfl (by decide) _ _)
  | _, _, _, _, _, _, .or hf _, hg, htext => by
    cases hg with
    | or hg =>
      obtain ⟨rfl, hr⟩ := ReadsAll.unique hf hg (by simpa using htext)
      exact ⟨rfl, hr⟩
    | and | not => simp at htext
    | item hg => exact absurd (by simpa using htext.symm) (hg.append_ne '|' rfl (by decide) _ _)
  | _, _, _, _, _, _, .not hf, hg, htext => by
    cases hg with
    | not hg =>
      obtain ⟨rfl, hr⟩ := Reads.unique hf hg (by simpa using htext)
      exact ⟨rfl, (List.cons.inj hr).2⟩
    | and | or => simp at htext
    | item hg => exact absurd (by simpa using htext.symm) (hg.append_ne '!' rfl (by decide) _ _)
  | _, _, _, _, _, _, .item hf, hg, htext => by
    cases hg with
    -- The other productions have a sign where this one has the first character of an item.
    | and => exact absurd (by simpa using htext) (hf.append_ne '&' rfl (by decide) _ _)
    | or => exact absurd (by simpa using htext) (hf.append_ne '|' rfl (by decide) _ _)
    | not => exact absurd (by simpa using htext) (hf.append_ne '!' rfl (by decide) _ _)
    | item hg =>
      have hstop : ∀ r, Stops isItemChar (')' :: r) := stops_cons (by decide)
      obtain ⟨rfl, hr⟩ := append_inj_of_stops hf.isItemChar (hstop _) hg.isItemChar (hstop _)
        (by simpa using htext)
      exact ⟨hf.unique hg, (List.cons.inj hr).2⟩

/-- Filters in a row end where a parenthesis closes. -/
theorem ReadsAll.unique : ∀ {cs ds r s : List Char} {fs gs : List DirectoryFilter}, ReadsAll cs fs →
    ReadsAll ds gs → cs ++ ')' :: r = ds ++ ')' :: s → fs = gs ∧ r = s
  | _, _, _, _, _, _, .nil, hg, htext => by
    cases hg with
    | nil => exact ⟨rfl, (List.cons.inj htext).2⟩
    | cons hg =>
      obtain ⟨es, rfl⟩ := hg.head
      simp at htext
  | _, _, _, _, _, _, .cons hf hfs, hg, htext => by
    cases hg with
    | nil =>
      obtain ⟨es, rfl⟩ := hf.head
      simp at htext
    | cons hg hgs =>
      -- The first filters agree and leave the same rest, in which the others stand.
      rw [List.append_assoc, List.append_assoc] at htext
      obtain ⟨rfl, hrest⟩ := Reads.unique hf hg htext
      obtain ⟨rfl, hr⟩ := ReadsAll.unique hfs hgs hrest
      exact ⟨rfl, hr⟩

end

end

end ScimLdap.Ldap
