/-!
# Blanks and the ends of a text

Words of a command line are separated by blanks: Unicode's space separators, the line and
paragraph separators, the controls from tab to carriage return, and the byte order mark. The
next-line control (U+0085), the zero width space and the information separators are not blank,
so they belong to the word they stand in. A text is trimmed of the blanks at both ends.

How a text begins and ends is tested on its characters, so the lemmas on list prefixes and suffixes
apply directly.
-/
namespace DeviceShell.Text

def isBlank (c : Char) : Bool :=
  let n := c.toNat
  (0x09 ≤ n && n ≤ 0x0D) || n == 0x20 || n == 0xA0 || n == 0x1680 ||
    (0x2000 ≤ n && n ≤ 0x200A) || n == 0x2028 || n == 0x2029 || n == 0x202F ||
    n == 0x205F || n == 0x3000 || n == 0xFEFF

/-- Every character is blank; the empty text is. -/
def isBlankText (s : String) : Bool := s.toList.all isBlank

/-- The characters between the first and the last one that is not blank. -/
def trimChars (cs : List Char) : List Char :=
  ((cs.dropWhile isBlank).reverse.dropWhile isBlank).reverse

def trim (s : String) : String := String.ofList (trimChars s.toList)

theorem dropWhile_isBlank_eq_nil_iff (cs : List Char) :
    cs.dropWhile isBlank = [] ↔ cs.all isBlank = true := by
  induction cs with
  | nil => simp
  | cons c cs ih =>
    cases hc : isBlank c with
    | true => rw [List.dropWhile_cons_of_pos hc, ih, List.all_cons, hc, Bool.true_and]
    | false => simp [hc]

theorem dropWhile_isBlank_dropWhile (cs : List Char) :
    (cs.dropWhile isBlank).dropWhile isBlank = cs.dropWhile isBlank := by
  induction cs with
  | nil => rfl
  | cons c cs ih =>
    cases hc : isBlank c with
    | true => simpa [List.dropWhile_cons, hc] using ih
    | false => simp [hc]

theorem trimChars_eq_nil_iff (cs : List Char) : trimChars cs = [] ↔ cs.all isBlank = true := by
  rw [trimChars, List.reverse_eq_nil_iff, dropWhile_isBlank_eq_nil_iff, List.all_reverse,
    ← dropWhile_isBlank_eq_nil_iff, dropWhile_isBlank_dropWhile, dropWhile_isBlank_eq_nil_iff]

/-- A text trims to nothing exactly when it is blank. -/
theorem trim_eq_empty_iff (s : String) : trim s = "" ↔ isBlankText s = true := by
  rw [← String.toList_inj, trim, isBlankText, String.toList_ofList]
  exact trimChars_eq_nil_iff s.toList

/-- The text `s` begins with `p`. -/
def hasPrefix (p s : String) : Bool := p.toList.isPrefixOf s.toList

/-- The text `s` ends with `e`. -/
def hasSuffix (e s : String) : Bool := e.toList.isSuffixOf s.toList

/-- Fills a column of the given width with spaces on the right; a longer text is kept whole. -/
def padRight (width : Nat) (s : String) : String :=
  s ++ String.ofList (List.replicate (width - s.length) ' ')

theorem hasPrefix_iff {p s : String} : hasPrefix p s = true ↔ p.toList <+: s.toList :=
  List.isPrefixOf_iff_prefix

theorem hasSuffix_iff {e s : String} : hasSuffix e s = true ↔ e.toList <:+ s.toList :=
  List.isSuffixOf_iff_suffix

theorem append_ne_empty {s : String} (h : s ≠ "") (t : String) : s ++ t ≠ "" := fun he =>
  h (String.append_eq_empty_iff.mp he).1

end DeviceShell.Text
