import ScimLdap.Proofs.Runs
import ScimLdap.Proofs.Validity
import ScimLdap.Search.Request

/-!
# Comma lists — the items that a text holds

A text cut at its commas is the two halves of it cut at theirs, wherever it is parted at a comma
(`commaList_append`). So the items of a text are those of its pieces one after the other
(`commaList_intercalate`), and a piece without a comma has one item, itself without the blanks around it, or
none if it is blank. An item is therefore found again whatever blanks and blank pieces stand around it, and
nothing else is ever found.
-/

namespace ScimLdap.Text

variable {isSep : Char → Bool} {c d : Char} {cs p : List Char} {s l r x : String} {xs pieces : List String}

/-! ## Pieces -/

theorem splitOn_eq_splitOnP (isSep : Char → Bool) (cs : List Char) : splitOn isSep cs = cs.splitOnP isSep := by
  induction cs with
  | nil => rfl
  | cons c cs ih =>
    rw [splitOn, List.splitOnP_cons_eq_if_modifyHead, ih]
    obtain ⟨piece, pieces, h⟩ := List.exists_cons_of_ne_nil (List.splitOnP_ne_nil isSep cs)
    rw [h]
    rfl

theorem not_sep_of_mem_splitOn (hp : p ∈ splitOn isSep cs) (hd : d ∈ p) : isSep d = false := by
  induction cs generalizing p with
  | nil =>
    obtain rfl : p = [] := List.mem_singleton.mp hp
    cases hd
  | cons c cs ih =>
    rw [splitOn] at hp
    split at hp
    · rcases List.mem_cons.mp hp with rfl | hp
      · cases hd
      · exact ih hp hd
    next hc =>
    obtain ⟨piece, pieces, h⟩ := List.exists_cons_of_ne_nil (splitOn_ne_nil isSep cs)
    rw [h] at hp ih
    rcases List.mem_cons.mp hp with rfl | hp
    · rcases List.mem_cons.mp hd with rfl | hd
      · exact Bool.eq_false_iff.mpr hc
      · exact ih List.mem_cons_self hd
    · exact ih (List.mem_cons_of_mem _ hp) hd

/-! ## Trimming -/

theorem trimChars_subset (h : c ∈ trimChars cs) : c ∈ cs := by
  have hback : c ∈ (cs.dropWhile isBlank).reverse :=
    (List.dropWhile_sublist isBlank).subset (List.mem_reverse.mp h)
  exact (List.dropWhile_sublist isBlank).subset (List.mem_reverse.mp hback)

theorem trimChars_eq_nil (h : ∀ c ∈ cs, isBlank c = true) : trimChars cs = [] := by
  rw [trimChars, List.dropWhile_eq_nil_iff.mpr h]
  rfl

/-- Blanks around a text that has none at its ends are what is trimmed off. -/
theorem trimChars_append {ls rs : List Char} (hl : ∀ c ∈ ls, isBlank c = true) (hr : ∀ c ∈ rs, isBlank c = true)
    (hne : cs ≠ []) (hfirst : Stops isBlank cs) (hlast : Stops isBlank cs.reverse) :
    trimChars (ls ++ cs ++ rs) = cs := by
  have hfirst : Stops isBlank (cs ++ rs) := by
    obtain ⟨c, cs, rfl⟩ := List.exists_cons_of_ne_nil hne
    exact stops_cons (hfirst c rfl) _
  have hback : ∀ c ∈ rs.reverse, isBlank c = true := fun c hc => hr c (List.mem_reverse.mp hc)
  rw [trimChars, List.append_assoc, dropWhile_append_of_stops hl hfirst, List.reverse_append,
    dropWhile_append_of_stops hback hlast, List.reverse_reverse]

/-! ## Items -/

/-- What an item of a list is: a text that is not empty, holds no comma and has no blank at either end. -/
structure IsItem (x : String) : Prop where
  nonempty : x ≠ ""
  noComma : ',' ∉ x.toList
  first : ∀ c ∈ x.toList.head?, isBlank c = false
  last : ∀ c ∈ x.toList.getLast?, isBlank c = false

/-- The pieces of a list of items: each item with blanks around it or without, and blank pieces before, between
    and after them. -/
inductive Holds : List String → List String → Prop
  | nil : Holds [] []
  | blank {b : String} {pieces xs : List String} (hb : isBlankText b = true) (h : Holds pieces xs) :
      Holds (b :: pieces) xs
  | item {l x r : String} {pieces xs : List String} (hl : isBlankText l = true) (hr : isBlankText r = true)
      (h : Holds pieces xs) : Holds ((l ++ x ++ r) :: pieces) (x :: xs)

theorem isBlankText_iff : isBlankText s = true ↔ ∀ c ∈ s.toList, isBlank c = true :=
  List.all_eq_true

theorem noComma_of_isBlankText (h : isBlankText s = true) : ',' ∉ s.toList :=
  fun hmem => absurd (isBlankText_iff.mp h _ hmem) (by decide)

/-- **A list falls apart at each of its commas.** -/
theorem commaList_append (a b : String) : commaList (a ++ "," ++ b) = commaList a ++ commaList b := by
  have htext : (a ++ "," ++ b).toList = a.toList ++ ',' :: b.toList := by
    rw [String.toList_append, String.toList_append, List.append_assoc]
    rfl
  simp only [commaList, htext, splitOn_eq_splitOnP]
  rw [List.splitOnP_append_cons _ _ rfl, List.map_append, List.filter_append, List.map_append]

theorem commaList_intercalate (pieces : List String) :
    commaList (",".intercalate pieces) = pieces.flatMap commaList := by
  induction pieces with
  | nil => decide +kernel
  | cons p pieces ih =>
    cases pieces with
    | nil => simp
    | cons q pieces =>
      rw [String.intercalate_cons_cons, commaList_append, ih]
      exact List.flatMap_cons.symm

theorem commaList_of_noComma (h : ',' ∉ s.toList) :
    commaList s = if (trimChars s.toList).isEmpty then [] else [trim s] := by
  have hnone : ∀ d ∈ s.toList, (d == ',') = false := by
    intro d hd
    rw [beq_eq_false_iff_ne]
    rintro rfl
    exact h hd
  rw [commaList, splitOn_of_none hnone]
  cases ht : (trimChars s.toList).isEmpty <;> simp [ht, trim]

theorem commaList_blank (h : isBlankText s = true) : commaList s = [] := by
  rw [commaList_of_noComma (noComma_of_isBlankText h), trimChars_eq_nil (isBlankText_iff.mp h)]
  rfl

theorem IsItem.ne_nil (h : IsItem x) : x.toList ≠ [] :=
  fun hnil => h.nonempty (String.toList_inj.mp hnil)

/-- An item is found again with blanks around it. -/
theorem IsItem.commaList_pad (h : IsItem x) (hl : isBlankText l = true) (hr : isBlankText r = true) :
    commaList (l ++ x ++ r) = [x] := by
  have hcomma : ',' ∉ (l ++ x ++ r).toList := by
    simp only [String.toList_append, List.mem_append, not_or]
    exact ⟨⟨noComma_of_isBlankText hl, h.noComma⟩, noComma_of_isBlankText hr⟩
  have hlast : Stops isBlank x.toList.reverse := by
    rw [Stops, List.head?_reverse]
    exact h.last
  have htrim : trimChars (l ++ x ++ r).toList = x.toList := by
    rw [String.toList_append, String.toList_append]
    exact trimChars_append (isBlankText_iff.mp hl) (isBlankText_iff.mp hr) h.ne_nil h.first hlast
  rw [commaList_of_noComma hcomma, trim, htrim, String.ofList_toList, if_neg (by simpa using h.ne_nil)]

theorem commaList_of_holds (hx : ∀ x ∈ xs, IsItem x) (h : Holds pieces xs) :
    commaList (",".intercalate pieces) = xs := by
  rw [commaList_intercalate]
  induction h with
  | nil => rfl
  | blank hb _ ih => rw [List.flatMap_cons, commaList_blank hb, List.nil_append, ih hx]
  | item hl hr _ ih =>
    obtain ⟨hfirst, hrest⟩ := List.forall_mem_cons.mp hx
    rw [List.flatMap_cons, hfirst.commaList_pad hl hr, ih hrest]
    rfl

theorem isItem_of_isTrimmed (h : isTrimmed x = true) (hcomma : ',' ∉ x.toList) : IsItem x := by
  have hends := Bool.and_eq_true_iff.mp h
  refine ⟨ne_empty_of_isTrimmed h, hcomma, ?_, ?_⟩
  · intro c hc
    simpa [Option.mem_def.mp hc] using hends.1
  · intro c hc
    simpa [Option.mem_def.mp hc] using hends.2

theorem isItem_of_mem_commaList (h : x ∈ commaList s) : IsItem x := by
  simp only [commaList, List.mem_map, List.mem_filter] at h
  obtain ⟨cs, ⟨⟨p, hp, rfl⟩, hne⟩, rfl⟩ := h
  have hblank : isBlankText (String.ofList p) = false := by
    rw [← Bool.not_eq_true, isBlankText_iff, String.toList_ofList]
    intro hall
    rw [trimChars_eq_nil hall] at hne
    cases hne
  have htrimmed := isTrimmed_trim hblank
  rw [trim, String.toList_ofList] at htrimmed
  refine isItem_of_isTrimmed htrimmed ?_
  rw [String.toList_ofList]
  intro hmem
  exact absurd (not_sep_of_mem_splitOn hp (trimChars_subset hmem)) (by decide)

end ScimLdap.Text

/-! ## The attributes to return -/

namespace ScimLdap.Search

/-- **The attributes to return are the items of their parameter**, none lost and none made up: of two lists
    joined by a comma they are those of the first and then those of the second, each is an item, and any items
    are found again, in order, with whatever blanks and blank items around them. A request has just this list,
    and succeeds or fails whatever it is. -/
theorem returnAttributes_lossless (params : Params) (builder : Builder) (baseDn : String) (entity : Entity) :
    let ra (attributes : String) := { params with attributes := some attributes }.returnAttributes
    (∀ a b, ra (a ++ "," ++ b) = ra a ++ ra b) ∧
    (∀ a, ∀ x ∈ ra a, Text.IsItem x) ∧
    (∀ xs pieces, (∀ x ∈ xs, Text.IsItem x) → Text.Holds pieces xs → ra (",".intercalate pieces) = xs) ∧
    builder.requestOfParams baseDn entity params =
      (builder.requestOfParams baseDn entity { params with attributes := none }).map
        fun r => { r with returnAttributes := params.returnAttributes } := by
  intro ra
  refine ⟨Text.commaList_append, fun a x hx => Text.isItem_of_mem_commaList hx,
    fun xs pieces hxs h => Text.commaList_of_holds hxs h, ?_⟩
  simp only [Builder.requestOfParams, Builder.request]
  cases builder.filters.searchFilter params.filter entity with
  | error e => rfl
  | ok filter =>
    cases builder.sortAttribute entity params.sortBy with
    | error e => rfl
    | ok sortBy => rfl

/-- Two items among blanks of several kinds, with blank pieces at both ends and between them. -/
theorem returnAttributes_lossless_spread :
    let items := ["uid", "given name"]
    let pieces := ["", "\u3000uid\n", " ", "given name\u00a0", ""]
    (∀ x ∈ items, Text.IsItem x) ∧ Text.Holds pieces items ∧
      { attributes := some ",\u3000uid\n, ,given name\u00a0," : Params }.returnAttributes = items := by
  intro items pieces
  have hitem : ∀ x ∈ items, Text.IsItem x := by
    have huid : Text.IsItem "uid" := Text.isItem_of_isTrimmed (by decide +kernel) (by decide +kernel)
    have hname : Text.IsItem "given name" := Text.isItem_of_isTrimmed (by decide +kernel) (by decide +kernel)
    exact List.forall_mem_cons.mpr ⟨huid, List.forall_mem_singleton.mpr hname⟩
  have hholds : Text.Holds pieces items := by
    have huid : ("\u3000" ++ "uid" ++ "\n" : String) = "\u3000uid\n" := by decide +kernel
    have hname : ("" ++ "given name" ++ "\u00a0" : String) = "given name\u00a0" := by decide +kernel
    have hend : Text.Holds ["given name\u00a0", ""] ["given name"] :=
      hname ▸ .item (by decide) (by decide +kernel) (.blank (by decide) .nil)
    have hmiddle : Text.Holds ("\u3000uid\n" :: " " :: ["given name\u00a0", ""]) items :=
      huid ▸ .item (by decide +kernel) (by decide +kernel) (.blank (by decide +kernel) hend)
    exact .blank (by decide) hmiddle
  have htext : ",".intercalate pieces = ",\u3000uid\n, ,given name\u00a0," := by decide +kernel
  have hra := (returnAttributes_lossless {} (Config.builder {}) "" .user).2.2.1 items pieces hitem hholds
  rw [htext] at hra
  exact ⟨hitem, hholds, hra⟩

end ScimLdap.Search
