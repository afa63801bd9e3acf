import Mathlib
import ScimLdap.Config.Expansion
import ScimLdap.Proofs.Runs

/-!
# References — where variables are put in, and where they are not

A text is cut into lines, and a line at its references: the leftmost ones, without overlap. A `Line` holds
what is in front of each reference, its name and what comes after the last, so that putting values in is
reading it from the front and keeping an eye on whether a `#` has gone by. There is one way to cut a text so
(`Lines.existsUnique_text`), and the pieces that `expand` works on are the ones it cuts (`parts_eq`).

What a variable holds is put beside the rest and never read, so nothing below asks which characters it has.
-/

namespace ScimLdap.Config

open Text (Stops append_inj_of_stops stops_cons stops_dropWhile takeWhile_append_of_stops
  dropWhile_append_of_stops)

variable {cs before copied after : List Char} {c : Char} {name : String}

/-! ## The text of a reference -/

/-- The text of the reference to a variable. -/
def written (name : String) : List Char :=
  '$' :: '\x7b' :: (name.toList ++ ['\x7d'])

/-- What a reference may name: any characters but the brace that ends it, and at least one. -/
def IsVariableName (name : String) : Prop :=
  name ≠ "" ∧ '\x7d' ∉ name.toList

/-- A reference stands at the front. -/
def BeginsReference (cs : List Char) : Prop :=
  ∃ name after, IsVariableName name ∧ cs = written name ++ after

theorem written_append (name : String) (after : List Char) :
    written name ++ after = '$' :: '\x7b' :: (name.toList ++ '\x7d' :: after) := by
  simp [written]

theorem IsVariableName.inside (h : IsVariableName name) : ∀ d ∈ name.toList, (d != '\x7d') = true := by
  intro d hd
  simp only [bne_iff_ne, ne_eq]
  rintro rfl
  exact h.2 hd

theorem stops_brace (after : List Char) : Stops (· != '\x7d') ('\x7d' :: after) :=
  stops_cons (by decide) after

theorem written_append_inj {name' : String} {after' : List Char} (h : IsVariableName name)
    (h' : IsVariableName name') (heq : written name ++ after = written name' ++ after') :
    name = name' ∧ after = after' := by
  rw [written_append, written_append, List.cons.injEq, List.cons.injEq] at heq
  obtain ⟨hname, hafter⟩ := append_inj_of_stops h.inside (stops_brace after) h'.inside
    (stops_brace after') heq.2.2
  exact ⟨String.toList_inj.mp hname, (List.cons.inj hafter).2⟩

/-- A reference at the front is found, and all of what comes after it is left. -/
theorem reference?_written (h : IsVariableName name) (after : List Char) :
    ∃ r, reference? (written name ++ after) = some r ∧ r.piece = name ∧ r.rest = after := by
  rw [written_append]
  have htake := takeWhile_append_of_stops h.inside (stops_brace after)
  have hdrop := dropWhile_append_of_stops h.inside (stops_brace after)
  simp only [reference?]
  split
  · next hnil =>
    rw [htake] at hnil
    exact absurd (String.toList_eq_nil_iff.mp hnil) h.1
  · next hrest _ =>
    rw [hdrop] at hrest
    cases hrest
    exact ⟨_, rfl, by simp [htake], rfl⟩
  · next hrest _ =>
    rw [hdrop] at hrest
    cases hrest

theorem reference?_eq_none (h : ¬BeginsReference cs) : reference? cs = none := by
  unfold reference?
  split
  · next cs =>
    split
    · rfl
    · next c rest hrest hname =>
      -- The run of other characters is a name, and what stops it is the brace.
      have hc := stops_dropWhile (· != '\x7d') cs c (by simp [hrest])
      simp only [bne_eq_false_iff_eq] at hc
      subst hc
      refine absurd ⟨.ofList (cs.takeWhile (· != '\x7d')), rest, ⟨?_, ?_⟩, ?_⟩ h
      · simpa [String.ext_iff] using hname
      · intro hmem
        have := List.mem_takeWhile_imp (String.toList_ofList ▸ hmem)
        simp at this
      · rw [written_append, String.toList_ofList, ← hrest, List.takeWhile_append_dropWhile]
    · rfl
  · rfl

/-! ## Pieces -/

/-- What stands in the place of a piece when every variable has a value. -/
def Part.put (v : String → String) : Part → List Char
  | char c => [c]
  | reference name => (v name).toList

theorem filterMap_name?_chars (cs : List Char) : (cs.map Part.char).filterMap Part.name? = [] := by
  induction cs with
  | nil => rfl
  | cons c cs ih => exact ih

theorem flatMap_put_chars (v : String → String) (cs : List Char) :
    (cs.map Part.char).flatMap (Part.put v) = cs := by
  induction cs with
  | nil => rfl
  | cons c cs ih => exact congrArg (c :: ·) ih

variable {value : String → Option String} {ps : List Part}

/-- Only the values of the names that occur are asked for. -/
theorem mapM_expand_congr {value' : String → Option String}
    (h : ∀ name ∈ ps.filterMap Part.name?, value' name = value name) :
    ps.mapM (Part.expand value') = ps.mapM (Part.expand value) := by
  have hpieces : ∀ p ∈ ps, p.expand value' = p.expand value := by
    intro p hp
    cases p with
    | char c => rfl
    | reference name => simp only [Part.expand, h name (List.mem_filterMap.mpr ⟨_, hp, rfl⟩)]
  clear h
  induction ps with
  | nil => rfl
  | cons p ps ih =>
    rw [List.mapM_cons, List.mapM_cons, hpieces p List.mem_cons_self,
      ih fun q hq => hpieces q (List.mem_cons_of_mem _ hq)]

theorem mapM_expand_eq_ok {v : String → String}
    (h : ∀ name ∈ ps.filterMap Part.name?, value name = some (v name)) :
    ps.mapM (Part.expand value) = .ok (ps.map (Part.put v)) := by
  have hput : Part.expand (fun name => some (v name)) = fun p => pure (p.put v) := by
    funext p
    cases p <;> rfl
  rw [mapM_expand_congr h, hput, List.mapM_pure]
  rfl

/-- The first variable without a value is the one that is told. -/
theorem mapM_expand_eq_error
    (h : (ps.filterMap Part.name?).find? (fun name => (value name).isNone) = some name) :
    ps.mapM (Part.expand value) = .error name := by
  induction ps with
  | nil => cases h
  | cons p ps ih =>
    rw [List.mapM_cons]
    cases p with
    | char c =>
      rw [ih h]
      rfl
    | reference first =>
      simp only [List.filterMap_cons, Part.name?, List.find?_cons] at h
      cases hfirst : value first with
      | none =>
        simp only [hfirst, Option.isNone_none, Option.some.injEq] at h
        subst h
        simp only [Part.expand, hfirst]
        rfl
      | some w =>
        simp only [hfirst, Option.isNone_some] at h
        simp only [Part.expand, hfirst, ih h]
        rfl

/-! ## Lines -/

/-- A line cut at its references: what is in front of each, back to the one before, and what comes after the
    last. -/
inductive Line where
  | last (copied : List Char)
  | next (copied : List Char) (name : String) (rest : Line)

namespace Line

def text : Line → List Char
  | last copied => copied
  | next copied name rest => copied ++ (written name ++ rest.text)

/-- No reference begins before the first that the line is cut at, nor in between. -/
def Leftmost : Line → Prop
  | last copied => ∀ front back, copied = front ++ back → ¬BeginsReference back
  | next copied name rest =>
    IsVariableName name ∧
      (∀ front back, copied = front ++ back → back ≠ [] →
        ¬BeginsReference (back ++ (written name ++ rest.text))) ∧
      rest.Leftmost

/-- The names of the references with no `#` in front of them; `before` is what there is of the line before. -/
def references (before : List Char) : Line → List String
  | last _ => []
  | next copied name rest =>
    (if '#' ∈ before ++ copied then [] else [name]) ++ rest.references (before ++ copied ++ written name)

/-- The line with values in the places of those references, all else as it was. -/
def expand (v : String → String) (before : List Char) : Line → List Char
  | last copied => copied
  | next copied name rest =>
    copied ++ (if '#' ∈ before ++ copied then written name else (v name).toList) ++
      rest.expand v (before ++ copied ++ written name)

def cons (c : Char) : Line → Line
  | last copied => last (c :: copied)
  | next copied name rest => next (c :: copied) name rest

@[simp] theorem text_cons (c : Char) (line : Line) : (line.cons c).text = c :: line.text := by
  cases line <;> rfl

theorem Leftmost.cons {line : Line} (h : line.Leftmost) (hc : ¬BeginsReference (c :: line.text)) :
    (line.cons c).Leftmost := by
  cases line with
  | last copied =>
    intro front back heq
    cases front with
    | nil => rwa [← List.nil_append back, ← heq]
    | cons d front => exact h front back (List.cons.inj heq).2
  | next copied name rest =>
    refine ⟨h.1, fun front back heq hback => ?_, h.2.2⟩
    cases front with
    | nil =>
      rw [← List.nil_append back, ← heq]
      exact hc
    | cons d front => exact h.2.1 front back (List.cons.inj heq).2 hback

/-- Every text can be cut at its leftmost references, ... -/
theorem exists_text_eq (cs : List Char) : ∃ line : Line, line.text = cs ∧ line.Leftmost := by
  induction hlen : cs.length using Nat.strong_induction_on generalizing cs with
  | _ n ih =>
  by_cases href : BeginsReference cs
  · obtain ⟨name, after, hname, rfl⟩ := href
    obtain ⟨line, rfl, hline⟩ := ih after.length (by rw [← hlen, written_append]; simp; omega) after rfl
    exact ⟨next [] name line, rfl, hname, fun front back heq hback => by simp_all, hline⟩
  cases cs with
  | nil =>
    refine ⟨last [], rfl, fun front back heq => ?_⟩
    rwa [(List.append_eq_nil_iff.mp heq.symm).2]
  | cons c cs =>
    obtain ⟨line, rfl, hline⟩ := ih cs.length (by rw [← hlen]; exact Nat.lt_succ_self _) cs rfl
    exact ⟨line.cons c, text_cons c line, hline.cons href⟩

/-- What is in front of a reference reaches at least as far as to the leftmost one. -/
theorem exists_copied_eq {copied' : List Char} {name' : String} {rest' : Line}
    (hname : IsVariableName name) (h : (next copied' name' rest').Leftmost)
    (heq : copied ++ (written name ++ after) = (next copied' name' rest').text) :
    ∃ more, copied = copied' ++ more := by
  rcases List.append_eq_append_iff.mp heq with ⟨more, rfl, hmore⟩ | ⟨more, rfl, -⟩
  · by_cases hnil : more = []
    · exact ⟨[], by simp [hnil]⟩
    · exact absurd ⟨name, after, hname, hmore.symm⟩ (h.2.1 copied more rfl hnil)
  · exact ⟨more, rfl⟩

/-- ... and in one way only. -/
theorem text_inj {line line' : Line} (h : line.Leftmost) (h' : line'.Leftmost) (heq : line.text = line'.text) :
    line = line' := by
  induction line generalizing line' with
  | last copied =>
    cases line' with
    | last copied' => rw [show copied = copied' from heq]
    | next copied' name' rest' => exact absurd ⟨name', _, h'.1, rfl⟩ (h _ _ heq)
  | next copied name rest ih =>
    cases line' with
    | last copied' => exact absurd ⟨name, _, h.1, rfl⟩ (h' _ _ heq.symm)
    | next copied' name' rest' =>
      obtain ⟨more, hmore⟩ := exists_copied_eq h.1 h' heq
      obtain ⟨more', hmore'⟩ := exists_copied_eq h'.1 h heq.symm
      have hcopied : copied = copied' := by
        rw [hmore, List.append_assoc, List.self_eq_append_right, List.append_eq_nil_iff] at hmore'
        rw [hmore, hmore'.1, List.append_nil]
      subst hcopied
      obtain ⟨rfl, hrest⟩ := written_append_inj h.1 h'.1 (List.append_cancel_left heq)
      rw [ih h.2.2 h'.2.2 hrest]

def parts (before : List Char) : Line → List Part
  | last copied => copied.map .char
  | next copied name rest =>
    copied.map .char ++
      ((if '#' ∈ before ++ copied then (written name).map .char else [.reference name]) ++
        rest.parts (before ++ copied ++ written name))

theorem parts_of_comment (h : '#' ∈ before) (line : Line) : line.parts before = line.text.map .char := by
  induction line generalizing before with
  | last copied => rfl
  | next copied name rest ih =>
    have hmore : '#' ∈ before ++ copied := List.mem_append_left _ h
    rw [parts, ih (List.mem_append_left _ hmore), if_pos hmore, text, List.map_append, List.map_append]

/-- Up to the next reference a line is copied, and from its first `#` on all the same. -/
theorem lineParts_append (h : ∀ front back, copied = front ++ back → back ≠ [] →
    ¬BeginsReference (back ++ after)) :
    lineParts (copied ++ after) =
      copied.map .char ++ (if '#' ∈ copied then after.map .char else lineParts after) := by
  induction copied with
  | nil => simp
  | cons c copied ih =>
    have hnone := reference?_eq_none (h [] (c :: copied) rfl (List.cons_ne_nil c copied))
    rw [List.cons_append] at hnone ⊢
    by_cases hc : c = '#'
    · simp [lineParts, hc]
    · rw [lineParts, if_neg hc, hnone]
      simp only [ih fun front back heq => h (c :: front) back (congrArg (c :: ·) heq), List.map_cons,
        List.cons_append, List.mem_cons, Ne.symm hc, false_or]

theorem lineParts_written (h : IsVariableName name) (after : List Char) :
    lineParts (written name ++ after) =
      .reference name :: (if '#' ∈ name.toList then after.map .char else lineParts after) := by
  obtain ⟨r, hr, hname, hafter⟩ := reference?_written h after
  show lineParts ('$' :: ('\x7b' :: (name.toList ++ ['\x7d']) ++ after)) = _
  rw [lineParts, if_neg (by decide)]
  simp only [show reference? ('$' :: ('\x7b' :: (name.toList ++ ['\x7d']) ++ after)) = some r from hr,
    hname, hafter, List.contains_iff_mem]

/-- What a line is taken apart into are its references and the characters around them. -/
theorem lineParts_text {line : Line} (h : line.Leftmost) (hb : '#' ∉ before) :
    lineParts line.text = line.parts before := by
  induction line generalizing before with
  | last copied =>
    have hfirst : ∀ front back, copied = front ++ back → back ≠ [] → ¬BeginsReference (back ++ []) := by
      intro front back heq _
      rw [List.append_nil]
      exact h front back heq
    simpa [text, parts, lineParts] using lineParts_append hfirst
  | next copied name rest ih =>
    have hcopied : '#' ∈ before ++ copied ↔ '#' ∈ copied := by simp [hb]
    have hnext : '#' ∈ before ++ copied ++ written name ↔ '#' ∈ copied ∨ '#' ∈ name.toList := by
      simp [hb, written]
    rw [text, lineParts_append h.2.1, lineParts_written h.1, parts]
    by_cases hc : '#' ∈ copied
    · rw [if_pos hc, if_pos (hcopied.mpr hc), parts_of_comment (hnext.mpr (.inl hc)), List.map_append]
    rw [if_neg hc, if_neg (hcopied.not.mpr hc)]
    by_cases hn : '#' ∈ name.toList
    · rw [if_pos hn, parts_of_comment (hnext.mpr (.inr hn))]
      rfl
    · rw [if_neg hn, ih h.2.2 (hnext.not.mpr (not_or.mpr ⟨hc, hn⟩))]
      rfl

theorem names_parts (before : List Char) (line : Line) :
    (line.parts before).filterMap Part.name? = line.references before := by
  induction line generalizing before with
  | last copied => exact filterMap_name?_chars copied
  | next copied name rest ih =>
    rw [parts, references, List.filterMap_append, List.filterMap_append, ih, filterMap_name?_chars]
    split
    · rw [filterMap_name?_chars]
      rfl
    · rfl

theorem put_parts (v : String → String) (before : List Char) (line : Line) :
    (line.parts before).flatMap (Part.put v) = line.expand v before := by
  induction line generalizing before with
  | last copied => exact flatMap_put_chars v copied
  | next copied name rest ih =>
    rw [parts, expand, List.flatMap_append, List.flatMap_append, ih, flatMap_put_chars,
      List.append_assoc copied]
    split
    · rw [flatMap_put_chars]
    · rw [List.flatMap_singleton]
      rfl

end Line

/-! ## Texts -/

/-- How a line ends: with a line feed, which a carriage return may come before. -/
inductive LineEnd where
  | feed
  | returnFeed

/-- What comes before the line feed. -/
def LineEnd.mark : LineEnd → List Char
  | feed => []
  | returnFeed => ['\r']

/-- A text cut into lines. The last has no end, and is empty in a text that ends with the end of a line. -/
inductive Lines where
  | last (line : Line)
  | next (line : Line) (ending : LineEnd) (rest : Lines)

namespace Lines

def text : Lines → List Char
  | last line => line.text
  | next line ending rest => line.text ++ ending.mark ++ '\n' :: rest.text

/-- No line goes on over an end, none leaves the return of its end behind, and the references of each are the
    leftmost ones. -/
def Proper : Lines → Prop
  | last line => '\n' ∉ line.text ∧ line.Leftmost
  | next line ending rest =>
    '\n' ∉ line.text ∧ (ending = .feed → line.text.getLast? ≠ some '\r') ∧ line.Leftmost ∧ rest.Proper

/-- The names that the text refers to outside of comments, in order. -/
def references : Lines → List String
  | last line => line.references []
  | next line _ rest => line.references [] ++ rest.references

/-- The text with values put in and a line feed alone at the end of each line. -/
def expand (v : String → String) : Lines → List Char
  | last line => line.expand v []
  | next line _ rest => line.expand v [] ++ '\n' :: rest.expand v

end Lines

theorem withoutReturn_mark {ending : LineEnd} (h : ending = .feed → cs.getLast? ≠ some '\r') :
    withoutReturn (cs ++ ending.mark) = cs := by
  cases ending with
  | feed => rw [LineEnd.mark, List.append_nil, withoutReturn, if_neg (h rfl)]
  | returnFeed => simp [LineEnd.mark, withoutReturn]

theorem ne_feed (h : '\n' ∉ cs) : ∀ d ∈ cs, (d == '\n') = false := by
  intro d hd
  simp only [beq_eq_false_iff_ne]
  rintro rfl
  exact h hd

theorem feed_notMem_mark {ending : LineEnd} (h : '\n' ∉ cs) : '\n' ∉ cs ++ ending.mark := by
  cases ending <;> simp [LineEnd.mark, h]

namespace Lines

/-- Every text can be cut into lines, ... -/
theorem exists_text_eq (cs : List Char) : ∃ lines : Lines, lines.text = cs ∧ lines.Proper := by
  induction hlen : cs.length using Nat.strong_induction_on generalizing cs with
  | _ n ih =>
  by_cases hfeed : '\n' ∈ cs
  · obtain ⟨content, rest, rfl, hcontent⟩ := List.eq_append_cons_of_mem hfeed
    obtain ⟨lines, rfl, hlines⟩ := ih rest.length (by rw [← hlen]; simp; omega) rest rfl
    by_cases hreturn : content.getLast? = some '\r'
    · obtain ⟨front, rfl⟩ := List.getLast?_eq_some_iff.mp hreturn
      obtain ⟨line, rfl, hline⟩ := Line.exists_text_eq front
      exact ⟨next line .returnFeed lines, rfl, by simp_all [Proper]⟩
    · obtain ⟨line, rfl, hline⟩ := Line.exists_text_eq content
      exact ⟨next line .feed lines, by simp [text, LineEnd.mark], hcontent, fun _ => hreturn, hline, hlines⟩
  · obtain ⟨line, rfl, hline⟩ := Line.exists_text_eq cs
    exact ⟨last line, rfl, hfeed, hline⟩

/-- ... and in one way only. -/
theorem text_inj {lines lines' : Lines} (h : lines.Proper) (h' : lines'.Proper)
    (heq : lines.text = lines'.text) : lines = lines' := by
  induction lines generalizing lines' with
  | last line =>
    cases lines' with
    | last line' => rw [Line.text_inj h.2 h'.2 heq]
    | next line' ending' rest' =>
      refine absurd ?_ h.1
      rw [show line.text = _ from heq]
      simp [text]
  | next line ending rest ih =>
    cases lines' with
    | last line' =>
      refine absurd ?_ h'.1
      rw [show line'.text = _ from heq.symm]
      simp [text]
    | next line' ending' rest' =>
      obtain ⟨hcontent, hrest⟩ := append_inj_of_stops (p := (· != '\n'))
        (fun d hd => by simpa using ne_feed (feed_notMem_mark h.1) d hd) (stops_cons (by decide) _)
        (fun d hd => by simpa using ne_feed (feed_notMem_mark h'.1) d hd) (stops_cons (by decide) _) heq
      have htext : line.text = line'.text := by
        rw [← withoutReturn_mark h.2.1, hcontent, withoutReturn_mark h'.2.1]
      rw [htext, List.append_cancel_left_eq] at hcontent
      have hending : ending = ending' := by cases ending <;> cases ending' <;> first | rfl | cases hcontent
      rw [Line.text_inj h.2.2.1 h'.2.2.1 htext, hending, ih h.2.2.2 h'.2.2.2 (List.cons.inj hrest).2]

theorem existsUnique_text (cs : List Char) : ∃! lines : Lines, lines.text = cs ∧ lines.Proper := by
  obtain ⟨lines, htext, h⟩ := exists_text_eq cs
  exact ⟨lines, ⟨htext, h⟩, fun other hother => text_inj hother.2 h (hother.1.trans htext.symm)⟩

def parts : Lines → List Part
  | last line => line.parts []
  | next line _ rest => line.parts [] ++ .char '\n' :: rest.parts

theorem linesParts_text {lines : Lines} (h : lines.Proper) :
    linesParts (Text.splitOn (· == '\n') lines.text) = lines.parts := by
  induction lines with
  | last line =>
    rw [text, Text.splitOn_of_none (ne_feed h.1)]
    exact Line.lineParts_text h.2 List.not_mem_nil
  | next line ending rest ih =>
    rw [text, Text.splitOn_append (ne_feed (feed_notMem_mark h.1)) (by decide), parts, ← ih h.2.2.2]
    have hne := Text.splitOn_ne_nil (· == '\n') rest.text
    cases hrest : Text.splitOn (· == '\n') rest.text with
    | nil => exact absurd hrest hne
    | cons next others =>
      rw [linesParts, withoutReturn_mark h.2.1, Line.lineParts_text h.2.2.1 List.not_mem_nil]
      exact List.cons_ne_nil next others

theorem names_parts (lines : Lines) : lines.parts.filterMap Part.name? = lines.references := by
  induction lines with
  | last line => exact Line.names_parts [] line
  | next line ending rest ih =>
    rw [parts, references, List.filterMap_append, Line.names_parts, ← ih]
    rfl

theorem put_parts (v : String → String) (lines : Lines) :
    lines.parts.flatMap (Part.put v) = lines.expand v := by
  induction lines with
  | last line => exact Line.put_parts v [] line
  | next line ending rest ih =>
    rw [parts, expand, List.flatMap_append, Line.put_parts, ← ih]
    rfl

end Lines

/-- The pieces that values are put into are those of the text as it is cut. -/
theorem parts_eq {text : String} {lines : Lines} (htext : lines.text = text.toList) (h : lines.Proper) :
    parts text = lines.parts := by
  rw [parts, ← htext, Lines.linesParts_text h]

/-- **Values are put in for the references outside of comments, and nothing else is changed.** A text can be cut
    in one way. When all that it refers to have a value, the text comes out with the values in place; when some
    have none, the first of them is told. Variables that it does not refer to make no difference. -/
theorem expand_replaces_references (text : String) :
    (∃! lines : Lines, lines.text = text.toList ∧ lines.Proper) ∧
    ∀ lines : Lines, lines.text = text.toList → lines.Proper → ∀ value : String → Option String,
      (∀ v : String → String, (∀ name ∈ lines.references, value name = some (v name)) →
        expand value text = .ok (String.ofList (lines.expand v))) ∧
      (∀ name, lines.references.find? (fun name => (value name).isNone) = some name →
        expand value text = .error name) ∧
      ∀ value' : String → Option String, (∀ name ∈ lines.references, value' name = value name) →
        expand value' text = expand value text := by
  refine ⟨Lines.existsUnique_text text.toList, fun lines htext h value => ?_⟩
  have hnames : (parts text).filterMap Part.name? = lines.references := by
    rw [parts_eq htext h, Lines.names_parts]
  rw [← hnames]
  refine ⟨fun v hv => ?_, fun name hname => ?_, fun value' hvalue => ?_⟩
  · rw [expand, mapM_expand_eq_ok hv, parts_eq htext h, ← Lines.put_parts v lines, List.flatMap_def]
    rfl
  · rw [expand, mapM_expand_eq_error hname]
    rfl
  · rw [expand, expand, mapM_expand_congr hvalue]

example : expand (fun _ => some "#$\x7bB\x7d\n") "a$\x7bA\x7d#$\x7bB\x7d\r\n\r" =
    .ok "a#$\x7bB\x7d\n#$\x7bB\x7d\n\r" := by
  cbv

end ScimLdap.Config
