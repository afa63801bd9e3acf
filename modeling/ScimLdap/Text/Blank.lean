/-!
# Blanks — the characters that separate, and trimming

A blank is a character with the Unicode property `White_Space`: twenty-five characters, of which six are
ASCII. The core class `Char.isWhitespace` holds four of them only, so the filter language, which lets any
blank stand between its lexemes, cannot use it.
-/

namespace ScimLdap.Text

def isBlank (c : Char) : Bool :=
  let n := c.toNat
  (0x09 ≤ n && n ≤ 0x0D) || n == 0x20 || n == 0x85 || n == 0xA0 || n == 0x1680 ||
    (0x2000 ≤ n && n ≤ 0x200A) || n == 0x2028 || n == 0x2029 || n == 0x202F || n == 0x205F ||
    n == 0x3000

def trimChars (cs : List Char) : List Char :=
  ((cs.dropWhile isBlank).reverse.dropWhile isBlank).reverse

def trim (s : String) : String :=
  String.ofList (trimChars s.toList)

/-- Nothing but blanks, the empty text included. -/
def isBlankText (s : String) : Bool :=
  s.toList.all isBlank

/-- `none` for an absent or blank text: the two ways in which a parameter is left out. -/
def nonBlank? (s : Option String) : Option String :=
  s.filter (fun t => !isBlankText t)

theorem nonBlank?_some {s : String} (h : isBlankText s = false) : nonBlank? (some s) = some s :=
  Option.filter_some_pos (by rw [h]; rfl)

/-- A text without blanks has none at its ends. -/
theorem trim_eq_self {s : String} (h : ∀ c ∈ s.toList, isBlank c = false) : trim s = s := by
  have hdrop : ∀ cs : List Char, (∀ c ∈ cs, isBlank c = false) → cs.dropWhile isBlank = cs := by
    intro cs hcs
    cases cs with
    | nil => rfl
    | cons c cs => exact List.dropWhile_cons_of_neg (by simp [hcs c List.mem_cons_self])
  have hback := hdrop s.toList.reverse fun c hc => h c (List.mem_reverse.mp hc)
  rw [trim, trimChars, hdrop s.toList h, hback, List.reverse_reverse, String.ofList_toList]

example : trim " \t a b\u3000" = "a b" := by decide +kernel

end ScimLdap.Text
