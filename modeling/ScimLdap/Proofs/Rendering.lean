import ScimLdap.Ldap.SearchFilter
import ScimLdap.Proofs.Lexemes
import ScimLdap.Proofs.Rfc4515

/-!
# The text of a search filter — what a directory reads in it

A search filter is written with no regard for the grammar of RFC 4515: names and numerals are put in as they
stand, and only texts are escaped. `SearchFilter.Readable` is what makes up for it, and under it the text has
exactly one reading, `SearchFilter.denote`. A text may hold anything, as its escapes stand for its own
octets; that is all there is to say of injection.
-/

namespace ScimLdap.Ldap

open Text (ne_of_outside)

/-! ## Values -/

section
variable {cs : List Char} {bs : List UInt8}

/-- Two digits that name a character's only octet stand for the character. -/
theorem octets_of_digits {c x y : Char} {a b : Nat} (hx : hexDigit? x = some a)
    (hy : hexDigit? y = some b) (hc : String.utf8EncodeChar c = [UInt8.ofNat (16 * a + b)])
    (h : Octets cs bs) : Octets (['\\', x, y] ++ cs) (String.utf8EncodeChar c ++ bs) := by
  rw [hc]
  exact .escaped hx hy h

theorem octets_escapeChar (h : Octets cs bs) (c : Char) :
    Octets (escapeChar c ++ cs) (String.utf8EncodeChar c ++ bs) := by
  -- Five characters are written as the digits of their octet; any other stands for itself.
  unfold escapeChar
  split
  · exact octets_of_digits (a := 2) (b := 10) rfl rfl rfl h
  · exact octets_of_digits (a := 2) (b := 8) rfl rfl rfl h
  · exact octets_of_digits (a := 2) (b := 9) rfl rfl rfl h
  · exact octets_of_digits (a := 5) (b := 12) rfl rfl rfl h
  · exact octets_of_digits (a := 0) (b := 0) rfl rfl rfl h
  · next hstar hopen hclose hback hnul =>
    refine .normal ?_ h
    simp only [isNormal, Bool.and_eq_true, bne_iff_ne]
    exact ⟨⟨⟨⟨hnul, hopen⟩, hclose⟩, hstar⟩, hback⟩

/-- A text that is escaped encodes itself, whatever it holds. -/
theorem encodes_escape (s : String) : Encodes (escape s).toList s := by
  have hall : ∀ cs : List Char, Octets (cs.flatMap escapeChar) (octetsOf cs) := by
    intro cs
    induction cs with
    | nil => exact .nil
    | cons c cs ih => exact octets_escapeChar ih c
  rw [escape, String.toList_ofList]
  exact hall s.toList

theorem encodes_of_isNormal {s : String} (h : ∀ c ∈ s.toList, isNormal c = true) :
    Encodes s.toList s := by
  have hall : ∀ cs : List Char, (∀ c ∈ cs, isNormal c = true) → Octets cs (octetsOf cs) := by
    intro cs hcs
    induction cs with
    | nil => exact .nil
    | cons c cs ih =>
      exact .normal (hcs c List.mem_cons_self) (ih fun d hd => hcs d (List.mem_cons_of_mem c hd))
  exact hall s.toList h

theorem isNormal_of_isNumber {s : String} (h : Filter.IsNumber s) :
    ∀ c ∈ s.toList, isNormal c = true := by
  obtain ⟨n, hn, -, -, rfl⟩ := h
  intro c hc
  rw [String.toList_ofList] at hc
  have hcont := hn.continues c hc
  have hne : ∀ d, Decimal.Numeral.continues d = false → c ≠ d := fun d hd => ne_of_outside hcont hd
  simp only [isNormal, Bool.and_eq_true, bne_iff_ne]
  exact ⟨⟨⟨⟨hne '\x00' rfl, hne '(' rfl⟩, hne ')' rfl⟩, hne '*' rfl⟩, hne '\\' rfl⟩

end

/-- A value that may be put into a filter: a numeral must be a number. -/
def Value.Readable : Value → Prop
  | .text _ => True
  | .numeral lexeme => Filter.IsNumber lexeme

theorem Value.Readable.encodes {v : Value} (h : v.Readable) : Encodes v.render.toList v.raw := by
  cases v with
  | text s => exact encodes_escape s
  | numeral lexeme => exact encodes_of_isNormal (isNormal_of_isNumber h)

theorem Encodes.ne_nil {cs : List Char} {v : String} (h : Encodes cs v) (hv : v ≠ "") : cs ≠ [] := by
  rintro rfl
  exact hv (h.unique encodes_nil)

/-! ## Filters -/

namespace SearchFilter

/-- A filter that may be written: plain names, operands under connectives, and no empty parts. -/
inductive Readable : SearchFilter → Prop
  | and {fs : List SearchFilter} (hne : fs ≠ []) (h : ∀ f ∈ fs, Readable f) : Readable (and fs)
  | or {fs : List SearchFilter} (hne : fs ≠ []) (h : ∀ f ∈ fs, Readable f) : Readable (or fs)
  | not {f : SearchFilter} (h : Readable f) : Readable (not f)
  | present {name : String} (hn : IsKeyString name.toList) : Readable (present name)
  | equal {name : String} {v : Value} (hn : IsKeyString name.toList) (hv : v.Readable) :
      Readable (equal name v)
  | atLeast {name : String} {v : Value} (hn : IsKeyString name.toList) (hv : v.Readable) :
      Readable (atLeast name v)
  | atMost {name : String} {v : Value} (hn : IsKeyString name.toList) (hv : v.Readable) :
      Readable (atMost name v)
  | substring {name : String} {part : Part} {v : Value} (hn : IsKeyString name.toList)
      (hv : v.Readable) (hne : v.raw ≠ "") : Readable (substring name part v)

mutual

/-- The filter in the directory's terms. -/
def denote : SearchFilter → DirectoryFilter
  | and filters => .and (denoteAll filters)
  | or filters => .or (denoteAll filters)
  | not filter => .not (denote filter)
  | present name => .present name
  | equal name value => .simple .equal name value.raw
  | atLeast name value => .simple .atLeast name value.raw
  | atMost name value => .simple .atMost name value.raw
  | substring name .initial value => .substrings name value.raw [] ""
  | substring name .any value => .substrings name "" [value.raw] ""
  | substring name .final value => .substrings name "" [] value.raw

def denoteAll : List SearchFilter → List DirectoryFilter
  | [] => []
  | f :: fs => denote f :: denoteAll fs

end

theorem denoteAll_eq_map (fs : List SearchFilter) : denoteAll fs = fs.map denote := by
  induction fs with
  | nil => rfl
  | cons f fs ih => rw [denoteAll, ih, List.map_cons]

variable {f : SearchFilter} {fs : List SearchFilter} {name : String}

theorem isAttribute_of_isKeyString {cs : List Char} (h : IsKeyString cs) : IsAttribute cs :=
  .oid (.inl h)

theorem reads_of_item {text : String} {cs : List Char} {d : DirectoryFilter} (h : ReadsItem cs d)
    (htext : text.toList = '(' :: (cs ++ [')'])) : Reads text.toList d := by
  rw [htext]
  exact .item h

theorem readsItem_simple {v : Value} (hn : IsKeyString name.toList) (hv : v.Readable)
    (type : MatchType) :
    ReadsItem (name.toList ++ type.chars ++ v.render.toList) (.simple type name v.raw) := by
  have hitem : ReadsItem (_ ++ type.chars ++ _) _ := .simple (isAttribute_of_isKeyString hn) hv.encodes
  rwa [String.ofList_toList] at hitem

/-- A part that is not empty keeps its stars from being read as presence. -/
theorem readsItem_substring {v : Value} (hn : IsKeyString name.toList) (hv : v.Readable)
    (hne : v.raw ≠ "") (part : Part) :
    ReadsItem (name.toList ++ '=' :: (withStars part v.render).toList)
      (denote (substring name part v)) := by
  have ha : IsAttribute name.toList := isAttribute_of_isKeyString hn
  -- The part has a first character, so its text is not the lone star that means presence.
  obtain ⟨c, cs, hcs⟩ := List.exists_cons_of_ne_nil (hv.encodes.ne_nil hne)
  have hinitial := Pieces.more hv.encodes (.one encodes_nil)
  have hfinal := Pieces.more encodes_nil (.one hv.encodes)
  have hany := Pieces.more encodes_nil hinitial
  have hstar : (withStars part v.render).toList ≠ ['*'] := by
    cases part <;> simp [withStars, hcs]
  cases part with
  | initial =>
    have hitem : ReadsItem _ (.substrings _ v.raw [] "") :=
      .substrings ha hinitial (by simpa [withStars] using hstar)
    simpa [withStars, denote] using hitem
  | any =>
    have hitem : ReadsItem _ (.substrings _ "" [v.raw] "") := .substrings ha hany (by simp)
    simpa [withStars, denote] using hitem
  | final =>
    have hitem : ReadsItem _ (.substrings _ "" [] v.raw) :=
      .substrings ha hfinal (by simpa [withStars] using hstar)
    simpa [withStars, denote] using hitem

theorem readsAll_renderAll (h : ∀ f ∈ fs, Reads f.render.toList f.denote) :
    ReadsAll (renderAll fs).toList (denoteAll fs) := by
  induction fs with
  | nil => exact .nil
  | cons f fs ih =>
    rw [renderAll, String.toList_append]
    exact .cons (h f List.mem_cons_self) (ih fun g hg => h g (List.mem_cons_of_mem f hg))

theorem denoteAll_ne_nil (hne : fs ≠ []) : denoteAll fs ≠ [] := by
  rw [denoteAll_eq_map]
  exact fun h => hne (List.map_eq_nil_iff.mp h)

/-- What a readable filter is written as is read as what it denotes. -/
theorem Readable.reads (h : Readable f) : Reads f.render.toList f.denote := by
  induction h with
  | @and fs hne _ ih =>
    have htext : (render (.and fs)).toList = '(' :: '&' :: ((renderAll fs).toList ++ [')']) := by
      simp [render]
    rw [htext]
    exact .and (readsAll_renderAll ih) (denoteAll_ne_nil hne)
  | @or fs hne _ ih =>
    have htext : (render (.or fs)).toList = '(' :: '|' :: ((renderAll fs).toList ++ [')']) := by
      simp [render]
    rw [htext]
    exact .or (readsAll_renderAll ih) (denoteAll_ne_nil hne)
  | @not f _ ih =>
    have htext : (render (.not f)).toList = '(' :: '!' :: ((render f).toList ++ [')']) := by
      simp [render]
    rw [htext]
    exact .not ih
  | @present name hn =>
    have hitem := ReadsItem.present (isAttribute_of_isKeyString hn)
    rw [String.ofList_toList] at hitem
    exact reads_of_item hitem (by simp [render])
  | equal hn hv => exact reads_of_item (readsItem_simple hn hv .equal) (by simp [render, MatchType.chars])
  | atLeast hn hv =>
    exact reads_of_item (readsItem_simple hn hv .atLeast) (by simp [render, MatchType.chars])
  | atMost hn hv =>
    exact reads_of_item (readsItem_simple hn hv .atMost) (by simp [render, MatchType.chars])
  | substring hn hv hne =>
    exact reads_of_item (readsItem_substring hn hv hne _) (by simp [render])

/-- A readable filter has no other reading. -/
theorem Readable.reads_iff (h : Readable f) {d : DirectoryFilter} :
    Reads f.render.toList d ↔ d = f.denote := by
  constructor
  · intro hd
    exact (Reads.unique (r := []) (s := []) hd h.reads rfl).1
  · rintro rfl
    exact h.reads

end SearchFilter

end ScimLdap.Ldap
