import Mathlib.Logic.Function.Basic
import ScimLdap.Dn.Layout
import ScimLdap.Proofs.Rfc4515

/-!
# RFC 4514 — who can say where a search begins

The names of the layout are put together from texts, and two of these come from outside: the person and the
device. What keeps them in their place is stated from the side of the reader. `rdns` cuts a name at the commas
that no backslash stands before; `unescape?` gives the string that a value's text stands for, octet by octet,
as RFC 4514 has it. `Denotes` adds what a writer owes the reader: nothing with a meaning of its own stands
there bare.

No organization is trusted in this. Its name may be any text, also one with a backslash at its end, because a
name is cut from the left and the organization comes last.
-/

namespace ScimLdap.Dn

open Ldap (hexDigit? octetsOf)

/-! ## Reading a value -/

/-- What the text of a value is made of: a character that stands for itself, a backslash with the character that
    it stands before, or a backslash with the two digits of an octet. -/
inductive Atom where
  | bare (c : Char)
  | escaped (c : Char)
  | octet (b : UInt8)
  deriving DecidableEq, Repr

/-- The characters that a backslash may stand before, digits apart. -/
def isEscapable (c : Char) : Bool :=
  ['"', '+', ',', ';', '<', '>', ' ', '#', '=', '\\'].contains c

/-- The atoms of a text. It has none when a backslash stands before anything else than RFC 4514 lets it. -/
def atoms? : List Char → Option (List Atom)
  | [] => some []
  | ['\\'] => none
  | '\\' :: c :: cs =>
    if isEscapable c then (atoms? cs).map (.escaped c :: ·)
    else match cs with
      | [] => none
      | d :: ds =>
        (hexDigit? c).bind fun a => (hexDigit? d).bind fun b =>
          (atoms? ds).map (.octet (UInt8.ofNat (16 * a + b)) :: ·)
  | c :: cs => (atoms? cs).map (.bare c :: ·)

/-- The octets that an atom stands for. -/
def Atom.octets : Atom → List UInt8
  | bare c => String.utf8EncodeChar c
  | escaped c => String.utf8EncodeChar c
  | octet b => [b]

/-- The string that the text of a value stands for, if its octets are those of one. -/
def unescape? (text : String) : Option String :=
  (atoms? text.toList).bind fun as => String.fromUTF8? (as.flatMap Atom.octets).toByteArray

/-- The characters that never stand for themselves in a value. -/
def isReserved (c : Char) : Bool :=
  [',', '+', '"', '\\', '<', '>', ';', '=', '\x00'].contains c

/-- Nothing stands bare that would end the value or be lost at one of its ends. -/
structure Guarded (as : List Atom) : Prop where
  inner : ∀ c, .bare c ∈ as → isReserved c = false
  front : as.head? ≠ some (.bare '#') ∧ as.head? ≠ some (.bare ' ')
  back : as.getLast? ≠ some (.bare ' ')

/-- The text is guarded and stands for the string. -/
def Denotes (text value : String) : Prop :=
  (∃ as, atoms? text.toList = some as ∧ Guarded as) ∧ unescape? text = some value

theorem Denotes.unique {text v w : String} (hv : Denotes text v) (hw : Denotes text w) : v = w := by
  have h : some v = some w := hv.2.symm.trans hw.2
  exact Option.some.inj h

/-! ## Cutting a name -/

/-- Pieces with characters in front of the first. -/
def prepend (front : List Char) : List (List Char) → List (List Char)
  | [] => [front]
  | piece :: pieces => (front ++ piece) :: pieces

/-- The pieces between the commas, but for those that follow a backslash. A backslash takes the next character
    along, whatever it is. -/
def splitCommas : List Char → List (List Char)
  | [] => [[]]
  | '\\' :: c :: cs => prepend ['\\', c] (splitCommas cs)
  | c :: cs => if c = ',' then [] :: splitCommas cs else prepend [c] (splitCommas cs)

/-- The relative names that a distinguished name is made of, from left to right. -/
def rdns (dn : String) : List String :=
  (splitCommas dn.toList).map String.ofList

/-- No cut falls into the text or is kept from what comes after it. -/
def Unbroken (front : List Char) : Prop :=
  ∀ cs, splitCommas (front ++ cs) = prepend front (splitCommas cs)

variable {front back cs : List Char} {c : Char}

theorem prepend_ne_nil (front : List Char) (pieces : List (List Char)) : prepend front pieces ≠ [] := by
  cases pieces with
  | nil => exact List.cons_ne_nil _ _
  | cons piece pieces => exact List.cons_ne_nil _ _

theorem splitCommas_ne_nil (cs : List Char) : splitCommas cs ≠ [] := by
  unfold splitCommas
  split
  · exact List.cons_ne_nil _ _
  · exact prepend_ne_nil _ _
  · split
    · exact List.cons_ne_nil _ _
    · exact prepend_ne_nil _ _

theorem prepend_prepend (front back : List Char) (pieces : List (List Char)) :
    prepend front (prepend back pieces) = prepend (front ++ back) pieces := by
  cases pieces <;> simp [prepend]

theorem unbroken_nil : Unbroken [] := by
  intro cs
  cases h : splitCommas cs with
  | nil => exact absurd h (splitCommas_ne_nil cs)
  | cons piece pieces => simp [prepend, h]

theorem Unbroken.append (hf : Unbroken front) (hb : Unbroken back) : Unbroken (front ++ back) := by
  intro cs
  rw [List.append_assoc, hf, hb, prepend_prepend]

theorem unbroken_singleton (hcomma : c ≠ ',') (hback : c ≠ '\\') : Unbroken [c] := by
  intro cs
  rw [List.singleton_append, splitCommas, if_neg hcomma]
  intro d ds hc
  exact absurd hc hback

theorem unbroken_pair (c : Char) : Unbroken ['\\', c] := by
  intro cs
  rfl

theorem unbroken_of_plain (h : ∀ c ∈ front, c ≠ ',' ∧ c ≠ '\\') : Unbroken front := by
  induction front with
  | nil => exact unbroken_nil
  | cons c front ih =>
    obtain ⟨hcomma, hback⟩ := h c List.mem_cons_self
    have hrest : Unbroken front := ih fun d hd => h d (List.mem_cons_of_mem c hd)
    exact (unbroken_singleton hcomma hback).append hrest

theorem Unbroken.splitCommas_comma (h : Unbroken front) (cs : List Char) :
    splitCommas (front ++ ',' :: cs) = front :: splitCommas cs := by
  have hcomma : splitCommas (',' :: cs) = [] :: splitCommas cs := by
    rw [splitCommas, if_pos rfl]
    intro d ds hc
    exact absurd hc (by decide)
  rw [h, hcomma, prepend, List.append_nil]

theorem rdns_append_comma (name rest : String) (h : Unbroken name.toList) :
    rdns (name ++ "," ++ rest) = name :: rdns rest := by
  have hlist : (name ++ "," ++ rest).toList = name.toList ++ ',' :: rest.toList := by simp
  rw [rdns, hlist, h.splitCommas_comma, List.map_cons, String.ofList_toList, rdns]

/-! ## What is written for a value -/

/-- What a character of a value is written as: after a backslash, as its octet, or, where nothing is against it,
    as itself. -/
theorem escapeChar_cases (first last : Bool) (c : Char) :
    (isEscapable c = true ∧ escapeChar first last c = ['\\', c]) ∨
      (c = '\x00' ∧ escapeChar first last c = ['\\', '0', '0']) ∨
      (isReserved c = false ∧ (first = true → c ≠ '#' ∧ c ≠ ' ') ∧ (last = true → c ≠ ' ') ∧
        escapeChar first last c = [c]) := by
  unfold escapeChar
  by_cases hesc : (isSpecial c || (c == '#' && first) || (c == ' ' && (first || last))) = true
  · rw [if_pos hesc]
    left
    simp only [isSpecial, List.contains_eq_mem, List.mem_cons, List.not_mem_nil, or_false,
      Bool.or_eq_true, Bool.and_eq_true, decide_eq_true_eq, beq_iff_eq] at hesc
    rcases hesc with (h | ⟨rfl, -⟩) | ⟨rfl, -⟩
    · rcases h with rfl | rfl | rfl | rfl | rfl | rfl | rfl | rfl <;> decide
    · decide
    · decide
  · rw [if_neg hesc]
    right
    by_cases hnul : c = '\x00'
    · rw [if_pos hnul]
      exact .inl ⟨hnul, rfl⟩
    · rw [if_neg hnul]
      right
      simp only [Bool.not_eq_true, Bool.or_eq_false_iff, Bool.and_eq_false_imp, beq_iff_eq] at hesc
      obtain ⟨⟨hspecial, hsharp⟩, hblank⟩ := hesc
      refine ⟨?_, ?_, ?_, rfl⟩
      · simpa [isReserved, isSpecial, hnul] using hspecial
      · rintro rfl
        exact ⟨fun h => absurd (hsharp h) (by decide), fun h => absurd (hblank h).1 (by decide)⟩
      · rintro rfl h
        exact absurd (hblank h).2 (by decide)

variable {first last : Bool}

theorem plain_of_not_reserved (h : isReserved c = false) : c ≠ ',' ∧ c ≠ '\\' := by
  constructor
  · rintro rfl
    exact absurd h (by decide)
  · rintro rfl
    exact absurd h (by decide)

theorem unbroken_escapeChar (first last : Bool) (c : Char) : Unbroken (escapeChar first last c) := by
  rcases escapeChar_cases first last c with ⟨-, h⟩ | ⟨-, h⟩ | ⟨hc, -, -, h⟩
  · rw [h]
    exact unbroken_pair c
  · rw [h]
    exact (unbroken_pair '0').append (unbroken_singleton (by decide) (by decide))
  · rw [h]
    obtain ⟨hcomma, hback⟩ := plain_of_not_reserved hc
    exact unbroken_singleton hcomma hback

theorem unbroken_escapeChars (first : Bool) (cs : List Char) : Unbroken (escapeChars first cs) := by
  induction cs generalizing first with
  | nil => exact unbroken_nil
  | cons c cs ih => exact (unbroken_escapeChar first _ c).append (ih false)

theorem atoms?_escaped (hc : isEscapable c = true) (cs : List Char) :
    atoms? ('\\' :: c :: cs) = (atoms? cs).map (.escaped c :: ·) := by
  cases cs with
  | nil => simp [atoms?, hc]
  | cons d ds => rw [atoms?, if_pos hc]

theorem atoms?_bare (hback : c ≠ '\\') (cs : List Char) :
    atoms? (c :: cs) = (atoms? cs).map (.bare c :: ·) := by
  rw [atoms?]
  · intro hc
    exact absurd hc hback
  · intro d ds hc
    exact absurd hc hback

/-- A character is written as one atom, which stands for its octets. -/
theorem exists_atom (first last : Bool) (c : Char) :
    ∃ a : Atom, (∀ cs, atoms? (escapeChar first last c ++ cs) = (atoms? cs).map (a :: ·)) ∧
      a.octets = String.utf8EncodeChar c ∧
      ∀ d, a = .bare d → isReserved d = false ∧ (first = true → d ≠ '#' ∧ d ≠ ' ') ∧
        (last = true → d ≠ ' ') := by
  rcases escapeChar_cases first last c with ⟨hc, h⟩ | ⟨rfl, h⟩ | ⟨hc, hfirst, hlast, h⟩
  · refine ⟨.escaped c, fun cs => ?_, rfl, fun d hd => by cases hd⟩
    rw [h]
    exact atoms?_escaped hc cs
  · refine ⟨.octet 0, fun cs => ?_, rfl, fun d hd => by cases hd⟩
    rw [h]
    rfl
  · refine ⟨.bare c, fun cs => ?_, rfl, ?_⟩
    · rw [h]
      exact atoms?_bare (plain_of_not_reserved hc).2 cs
    · rintro d hd
      cases hd
      exact ⟨hc, hfirst, hlast⟩

/-- The atoms of what is written for a value, or for what is left of it after its first character. -/
theorem exists_atoms (first : Bool) (cs : List Char) :
    ∃ as, atoms? (escapeChars first cs) = some as ∧ as.flatMap Atom.octets = octetsOf cs ∧
      (∀ c, .bare c ∈ as → isReserved c = false) ∧
      (first = true → as.head? ≠ some (.bare '#') ∧ as.head? ≠ some (.bare ' ')) ∧
      as.getLast? ≠ some (.bare ' ') := by
  induction cs generalizing first with
  | nil => exact ⟨[], rfl, rfl, by simp, by simp, by simp⟩
  | cons c cs ih =>
    obtain ⟨as, hatoms, hoctets, hinner, -, hback⟩ := ih false
    obtain ⟨a, hatom, hoctet, hbare⟩ := exists_atom first cs.isEmpty c
    refine ⟨a :: as, ?_, ?_, ?_, ?_, ?_⟩
    · rw [escapeChars, hatom, hatoms, Option.map_some]
    · rw [List.flatMap_cons, hoctet, hoctets]
      rfl
    · intro d hd
      rcases List.mem_cons.mp hd with hd | hd
      · exact (hbare d hd.symm).1
      · exact hinner d hd
    · intro hfirst
      have hne : ∀ d, d = '#' ∨ d = ' ' → a ≠ .bare d := by
        rintro d hd rfl
        obtain ⟨hsharp, hblank⟩ := (hbare d rfl).2.1 hfirst
        exact hd.elim hsharp hblank
      simpa using ⟨hne '#' (.inl rfl), hne ' ' (.inr rfl)⟩
    · cases cs with
      | nil =>
        -- The character is the last one, and its atom too.
        cases hatoms
        intro h
        exact (hbare ' ' (Option.some.inj h)).2.2 rfl rfl
      | cons d ds =>
        have hne : as ≠ [] := by
          rintro rfl
          exact absurd (List.append_eq_nil_iff.mp hoctets.symm).1 String.utf8EncodeChar_ne_nil
        rwa [List.getLast?_cons_of_ne_nil hne]

/-- What is written for a string is guarded and stands for the string, whatever it holds. -/
theorem denotes_escape (s : String) : Denotes (escape s) s := by
  obtain ⟨as, hatoms, hoctets, hinner, hfront, hback⟩ := exists_atoms true s.toList
  have hread : atoms? (escape s).toList = some as := by rw [escape, String.toList_ofList, hatoms]
  refine ⟨⟨as, hread, hinner, hfront rfl, hback⟩, ?_⟩
  have hutf8 : (octetsOf s.toList).toByteArray = s.toByteArray := String.utf8Encode_toList
  rw [unescape?, hread, Option.bind_some, hoctets, hutf8, String.fromUTF8?, dif_pos s.isValidUTF8]
  rfl

theorem escape_injective : Function.Injective escape := by
  intro s t h
  have ht : Denotes (escape s) t := h ▸ denotes_escape t
  exact (denotes_escape s).unique ht

/-! ## The names of the layout -/

/-- A value stays in the relative name that it was written for. -/
theorem rdns_append_value (type value rest : String)
    (htype : ∀ c ∈ type.toList, c ≠ ',' ∧ c ≠ '\\') :
    rdns (type ++ escape value ++ "," ++ rest) = (type ++ escape value) :: rdns rest := by
  apply rdns_append_comma
  rw [String.toList_append, escape, String.toList_ofList]
  exact (unbroken_of_plain htype).append (unbroken_escapeChars true value.toList)

namespace Layout

variable (l : Layout) (person device : String)

theorem rdns_people : rdns l.people = "ou=people" :: rdns l.orgDn :=
  rdns_append_comma "ou=people" l.orgDn (unbroken_of_plain (by simp))

theorem rdns_devices :
    rdns (l.devices person)
      = "ou=fido2_register" :: ("inum=" ++ escape person) :: "ou=people" :: rdns l.orgDn := by
  have hfront : "ou=fido2_register,inum=" = "ou=fido2_register" ++ "," ++ "inum=" := by decide +kernel
  have hname : l.devices person
      = "ou=fido2_register" ++ "," ++ ("inum=" ++ escape person ++ "," ++ l.people) := by
    unfold devices
    simp only [← String.append_assoc]
    exact congrArg (· ++ escape person ++ "," ++ l.people) hfront
  have hregister : Unbroken "ou=fido2_register".toList := unbroken_of_plain (by simp)
  have hperson := rdns_append_value "inum=" person l.people (by simp)
  rw [hname, rdns_append_comma _ _ hregister, hperson, rdns_people]

theorem rdns_device :
    rdns (l.device person device) = ("oxId=" ++ escape device) :: rdns (l.devices person) :=
  rdns_append_value "oxId=" device (l.devices person) (by simp)

end Layout

/-- **A name of the layout cannot be forged** through the person or the device that it is made for. Whatever
    these hold and whatever the organization is called, each of them ends up as one value in its own place, and
    reading that value gives it back. So two names are the same only when they were made for the same. -/
theorem device_names_not_forged (l : Layout) :
    (∀ person device, ∃ d p, Denotes d device ∧ Denotes p person ∧
      rdns (l.device person device)
        = ["oxId=" ++ d, "ou=fido2_register", "inum=" ++ p, "ou=people"] ++ rdns l.orgDn ∧
      rdns (l.devices person) = ["ou=fido2_register", "inum=" ++ p, "ou=people"] ++ rdns l.orgDn ∧
      rdns (l.baseDn .fidoDevice (some person))
        = ["ou=fido2_register", "inum=" ++ p, "ou=people"] ++ rdns l.orgDn) ∧
    Function.Injective2 l.device ∧ Function.Injective l.devices ∧
    Function.Injective (fun owner => l.baseDn .fidoDevice (some owner)) := by
  have hdevices : ∀ p p', rdns (l.devices p) = rdns (l.devices p') → p = p' := by
    intro p p' h
    simp only [Layout.rdns_devices, List.cons.injEq, String.append_right_inj, true_and, and_true] at h
    exact escape_injective h
  refine ⟨fun person device => ⟨escape device, escape person, denotes_escape device,
    denotes_escape person, ?_, l.rdns_devices person, l.rdns_devices person⟩, ?_, ?_, ?_⟩
  · rw [Layout.rdns_device, Layout.rdns_devices]
    rfl
  · intro p p' d d' h
    have hrdns := congrArg rdns h
    rw [Layout.rdns_device, Layout.rdns_device, List.cons.injEq, String.append_right_inj] at hrdns
    exact ⟨hdevices p p' hrdns.2, escape_injective hrdns.1⟩
  · intro p p' h
    exact hdevices p p' (congrArg rdns h)
  · intro p p' h
    exact hdevices p p' (congrArg rdns h)

example :
    rdns (({ orgDn := "o=a\\" } : Layout).devices "x,ou=admins ")
      = ["ou=fido2_register", "inum=x\\,ou\\=admins\\ ", "ou=people", "o=a\\"] := by
  decide +kernel

end ScimLdap.Dn
