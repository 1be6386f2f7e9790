import Mathlib.Data.List.DropRight
import Rivloom.Lib.RustStd

/-!
# Cutting texts

The functions of the Rust standard library that cut a text at its ends or at a
character: trimming, splitting, and the ASCII letters. They are stated on the
characters of the text, so that what they leave is what is left of a list.
-/

namespace Rivloom

variable {x : Char} {s : List Char} (c : Char)

/-! ### Ends -/

/-- `s.trim_start()`. -/
def trimStart (s : String) : String := String.ofList (s.toList.dropWhile isWhitespace)

/-- `s.trim_end()`. -/
def trimEnd (s : String) : String := String.ofList (s.toList.rdropWhile isWhitespace)

/-- `s.trim()`. -/
def trim (s : String) : String := trimEnd (trimStart s)

/-- `s.trim_start_matches(c)`. -/
def trimStartMatches (c : Char) (s : String) : String :=
  String.ofList (s.toList.dropWhile (· == c))

/-! ### Splitting -/

/-- `s.split(separator)`, on characters: the pieces between the separators. -/
def splitChar (separator : Char) : List Char → List (List Char)
  | [] => [[]]
  | c :: rest =>
    if c = separator then [] :: splitChar separator rest
    else (splitChar separator rest).modifyHead (c :: ·)

/-- `s.split_once(separator)`: the text before the first separator and the text behind it. -/
def splitOnce (separator : Char) (s : String) : Option (String × String) :=
  match s.toList.dropWhile (· ≠ separator) with
  | [] => none
  | _ :: rest => some (String.ofList (s.toList.takeWhile (· ≠ separator)), String.ofList rest)

/-! ### Texts as lists of characters

Where a text is taken apart and compared piece by piece it is kept as the list of
its characters. -/

/-- A text, as the list of its characters. -/
abbrev Text := List Char

instance : LawfulBEq Text := inferInstanceAs (LawfulBEq (List Char))

/-- `s.trim()`, on characters. -/
def trimChars (s : List Char) : List Char :=
  (s.dropWhile isWhitespace).rdropWhile isWhitespace

/-- `s.trim_end()`, on characters. -/
def trimEndChars (s : List Char) : List Char := s.rdropWhile isWhitespace

/-- A line without the carriage return at its end. -/
def stripCarriageReturn (line : List Char) : List Char :=
  if line.getLast? = some '\r' then line.dropLast else line

/-- `s.lines()`: the pieces between the line feeds, a last empty one left out; a line
feed takes a carriage return in front of it along. -/
def linesOf (s : List Char) : List (List Char) :=
  let pieces := splitChar '\n' s
  pieces.dropLast.map stripCarriageReturn ++ pieces.getLast?.toList.filter (· ≠ [])

/-- `s.to_ascii_lowercase()`, on characters. -/
def toAsciiLowercase (s : List Char) : List Char := s.map Char.toLower

/-- `s.split_once(delimiter)` for a text as the delimiter. -/
def splitOnceChars (delimiter : List Char) : List Char → Option (List Char × List Char)
  | [] => if delimiter.isEmpty then some ([], []) else none
  | c :: rest =>
    if delimiter.isPrefixOf (c :: rest) then some ([], (c :: rest).drop delimiter.length)
    else (splitOnceChars delimiter rest).map fun cut => (c :: cut.1, cut.2)

/-! ### The pieces of a text -/

theorem splitChar_of_not_mem {c : Char} (h : c ∉ s) : splitChar c s = [s] := by
  induction s with
  | nil => rfl
  | cons x s ih =>
    have hx : x ≠ c := fun heq => h (heq ▸ List.mem_cons_self)
    rw [splitChar, if_neg hx, ih (fun hc => h (List.mem_cons_of_mem x hc))]
    rfl

theorem splitChar_append_cons {c : Char} (h : c ∉ s) (rest : List Char) :
    splitChar c (s ++ c :: rest) = s :: splitChar c rest := by
  induction s with
  | nil => simp [splitChar]
  | cons x s ih =>
    have hx : x ≠ c := fun heq => h (heq ▸ List.mem_cons_self)
    rw [List.cons_append, splitChar, if_neg hx, ih (fun hc => h (List.mem_cons_of_mem x hc))]
    rfl

theorem splitChar_ne_nil (s : List Char) : splitChar c s ≠ [] := by
  induction s with
  | nil => simp [splitChar]
  | cons x s ih =>
    rw [splitChar]
    split
    · exact List.cons_ne_nil _ _
    · intro h
      rw [List.modifyHead_eq_nil_iff] at h
      exact ih h

/-! ### Cutting a text before or after its letters are lowered

Lowering the letters of a text moves no other character, so that a cut at a
character that is not a letter may be made before or after it. -/

/-- A character that is no ASCII letter. -/
def NotLetter (x : Char) : Prop := x.toNat < 65 ∨ (90 < x.toNat ∧ x.toNat < 97) ∨ 122 < x.toNat

instance (x : Char) : Decidable (NotLetter x) :=
  inferInstanceAs (Decidable (_ ∨ (_ ∧ _) ∨ _))

theorem toNat_toLower :
    c.toLower.toNat = if 65 ≤ c.toNat ∧ c.toNat ≤ 90 then c.toNat + 32 else c.toNat := by
  have hcase : (c.val ≥ 'A'.val ∧ c.val ≤ 'Z'.val) ↔ (65 ≤ c.toNat ∧ c.toNat ≤ 90) := Iff.rfl
  unfold Char.toLower
  split
  · rename_i hc
    have hrange := hcase.mp hc
    rw [if_pos hrange]
    change (c.toNat + 32) % 4294967296 = c.toNat + 32
    omega
  · rename_i hc
    rw [if_neg (fun hrange => hc (hcase.mpr hrange))]

theorem toLower_eq_iff (hx : NotLetter x) (c : Char) : c.toLower = x ↔ c = x := by
  rw [← Char.toNat_inj, ← Char.toNat_inj, toNat_toLower]
  unfold NotLetter at hx
  split <;> omega

theorem toLower_toLower : c.toLower.toLower = c.toLower := by
  have hc := toNat_toLower c
  rw [← Char.toNat_inj, toNat_toLower c.toLower]
  split at hc
  · rw [if_neg (by omega)]
  · rw [if_neg (by omega)]

theorem isWhitespace_toLower : isWhitespace c.toLower = isWhitespace c := by
  rw [isWhitespace, isWhitespace, toNat_toLower]
  split
  · grind
  · rfl

theorem toAsciiLowercase_idem (s : List Char) :
    toAsciiLowercase (toAsciiLowercase s) = toAsciiLowercase s := by
  rw [toAsciiLowercase, toAsciiLowercase, List.map_map]
  exact List.map_congr_left fun c _ => toLower_toLower c

theorem trimChars_toAsciiLowercase (s : List Char) :
    trimChars (toAsciiLowercase s) = toAsciiLowercase (trimChars s) := by
  have hspace : isWhitespace ∘ Char.toLower = isWhitespace := funext isWhitespace_toLower
  simp only [trimChars, toAsciiLowercase, List.rdropWhile, List.dropWhile_map, ← List.map_reverse,
    hspace]

theorem takeWhile_toAsciiLowercase (hx : NotLetter x) (s : List Char) :
    (toAsciiLowercase s).takeWhile (· ≠ x) = toAsciiLowercase (s.takeWhile (· ≠ x)) := by
  have hstop : (fun c => decide (c ≠ x)) ∘ Char.toLower = fun c => decide (c ≠ x) := by
    funext c
    exact decide_eq_decide.mpr (toLower_eq_iff hx c).not
  rw [toAsciiLowercase, List.takeWhile_map, hstop, toAsciiLowercase]

theorem mem_toAsciiLowercase (hx : NotLetter x) (s : List Char) :
    x ∈ toAsciiLowercase s ↔ x ∈ s := by
  simp [toAsciiLowercase, toLower_eq_iff hx]

theorem count_toAsciiLowercase (hx : NotLetter x) (s : List Char) :
    (toAsciiLowercase s).count x = s.count x := by
  have hsame : (· == x) ∘ Char.toLower = (· == x) := by
    funext c
    exact Bool.eq_iff_iff.mpr (by simpa using toLower_eq_iff hx c)
  simp only [toAsciiLowercase, List.count_eq_countP, List.countP_map, hsame]

theorem isPrefixOf_toAsciiLowercase {lead : List Char} (hlead : ∀ x ∈ lead, NotLetter x)
    (s : List Char) : lead.isPrefixOf (toAsciiLowercase s) = lead.isPrefixOf s := by
  induction lead generalizing s with
  | nil => rfl
  | cons x rest ih =>
    cases s with
    | nil => rfl
    | cons c tail =>
      have hx := toLower_eq_iff (hlead x List.mem_cons_self) c
      have hhead : (x == c.toLower) = (x == c) :=
        Bool.eq_iff_iff.mpr (by rw [beq_iff_eq, beq_iff_eq, eq_comm, hx, eq_comm])
      simp only [toAsciiLowercase, List.map_cons, List.isPrefixOf, hhead]
      rw [← toAsciiLowercase, ih (fun y hy => hlead y (List.mem_cons_of_mem x hy))]

theorem toAsciiLowercase_eq_iff {text : List Char} (htext : ∀ x ∈ text, NotLetter x)
    (s : List Char) : toAsciiLowercase s = text ↔ s = text := by
  induction text generalizing s with
  | nil => simp [toAsciiLowercase]
  | cons x rest ih =>
    cases s with
    | nil => simp [toAsciiLowercase]
    | cons c tail =>
      have hrest := ih (fun y hy => htext y (List.mem_cons_of_mem x hy)) tail
      rw [toAsciiLowercase] at hrest
      rw [toAsciiLowercase, List.map_cons, List.cons_eq_cons, List.cons_eq_cons, hrest,
        toLower_eq_iff (htext x List.mem_cons_self)]

end Rivloom
