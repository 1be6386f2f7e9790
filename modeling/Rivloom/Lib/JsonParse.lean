import Rivloom.Lib.Json

/-!
# Reading JSON text back

The parser of the values of `Rivloom.Lib.Json`, and the proof that it inverts the
printer. It reads the full grammar – blanks, every escape, surrogate pairs – and not
only what the printer writes, because the texts it is given come from outside.

The recursion is on a supply of fuel, one unit for each nested value and each
further item, so that the parser evaluates; the length of the text is always enough,
every unit being paid for by a character consumed. The induction of the round trip
follows the value: an array hands the fuel left after its bracket to its first item
and to the rest of its items, and both are strictly shorter than the array's text.
-/

namespace Rivloom

namespace Json

variable (r : List Char) (j : Json)

/-! ### The parser -/

/-- The blanks of JSON. -/
def isBlank (c : Char) : Bool := c = ' ' || c = '\n' || c = '\t' || c = '\r'

/-- A text without its leading blanks. -/
def skip (cs : List Char) : List Char := cs.dropWhile isBlank

/-- The value of a hexadecimal digit. -/
def hexValue (c : Char) : Option ℕ :=
  if '0' ≤ c ∧ c ≤ '9' then some (c.toNat - 48)
  else if 'a' ≤ c ∧ c ≤ 'f' then some (c.toNat - 87)
  else if 'A' ≤ c ∧ c ≤ 'F' then some (c.toNat - 55)
  else none

/-- The code unit written by four hexadecimal digits. -/
def codeUnit (a b c d : Char) : Option ℕ := do
  let a ← hexValue a
  let b ← hexValue b
  let c ← hexValue c
  let d ← hexValue d
  return ((a * 16 + b) * 16 + c) * 16 + d

/-- The characters of a string up to its closing quote, and the text after it. -/
def parseChars : List Char → Option (List Char × List Char)
  | [] => none
  | c :: cs =>
    if c = '"' then some ([], cs)
    else if c = '\\' then
      match cs with
      | [] => none
      | e :: cs =>
        if e = 'u' then
          match cs with
          | a :: b :: c :: d :: cs =>
            match codeUnit a b c d with
            | none => none
            | some unit =>
              if unit < 0xD800 ∨ 0xDFFF < unit then
                (parseChars cs).map fun p => (Char.ofNat unit :: p.1, p.2)
              else if unit ≤ 0xDBFF then
                -- a leading surrogate counts only in front of a trailing one
                match cs with
                | '\\' :: 'u' :: a :: b :: c :: d :: cs =>
                  match codeUnit a b c d with
                  | none => none
                  | some low =>
                    if 0xDC00 ≤ low ∧ low ≤ 0xDFFF then
                      (parseChars cs).map fun p =>
                        (Char.ofNat (0x10000 + (unit - 0xD800) * 0x400 + (low - 0xDC00)) :: p.1,
                          p.2)
                    else none
                | _ => none
              else none
          | _ => none
        else
          match unescape e with
          | none => none
          | some c => (parseChars cs).map fun p => (c :: p.1, p.2)
    else if c.toNat < 32 then none
    else (parseChars cs).map fun p => (c :: p.1, p.2)

/-- A natural number in decimal without superfluous zeros, and the text after it; a
fraction or an exponent behind it makes it a float, which is refused. -/
def parseNat (cs : List Char) : Option (ℕ × List Char) :=
  let digits := cs.takeWhile Char.isDigit
  let rest := cs.dropWhile Char.isDigit
  if digits = [] ∨ (digits.head? = some '0' ∧ digits.length ≠ 1) then none
  else if rest.head? = some '.' ∨ rest.head? = some 'e' ∨ rest.head? = some 'E' then none
  else some (Nat.ofDigitChars 10 digits 0, rest)

/-- A number. Negative zero is a float, and refused as one. -/
def parseNum : List Char → Option (Json × List Char)
  | '-' :: cs =>
    match parseNat cs with
    | some (n + 1, rest) => some (.num (.negSucc n), rest)
    | _ => none
  | cs => (parseNat cs).map fun p => (.num (.ofNat p.1), p.2)

/-- A fixed word, standing for a value. -/
def parseWord (word : List Char) (v : Json) (cs : List Char) : Option (Json × List Char) :=
  if word <+: cs then some (v, cs.drop word.length) else none

mutual

/-- A value and the text after it. -/
def parseValue : ℕ → List Char → Option (Json × List Char)
  | 0, _ => none
  | n + 1, cs =>
    match skip cs with
    | [] => none
    | c :: cs =>
      if c = 'n' then parseWord ['u', 'l', 'l'] .null cs
      else if c = 't' then parseWord ['r', 'u', 'e'] (.bool true) cs
      else if c = 'f' then parseWord ['a', 'l', 's', 'e'] (.bool false) cs
      else if c = '"' then (parseChars cs).map fun p => (.str (String.ofList p.1), p.2)
      else if c = '[' then
        match skip cs with
        | ']' :: rest => some (.arr [], rest)
        | _ => do
          let (x, rest) ← parseValue n cs
          let (xs, rest) ← parseItems n rest
          return (.arr (x :: xs), rest)
      else if c = '{' then
        match skip cs with
        | '}' :: rest => some (.obj [], rest)
        | _ => do
          let (m, rest) ← parseMember n cs
          let (ms, rest) ← parseMembers n rest
          return (.obj (m :: ms), rest)
      else parseNum (c :: cs)

/-- The items of an array after one of them, up to the closing bracket. -/
def parseItems : ℕ → List Char → Option (List Json × List Char)
  | 0, _ => none
  | n + 1, cs =>
    match skip cs with
    | ']' :: rest => some ([], rest)
    | ',' :: rest => do
      let (x, rest) ← parseValue n rest
      let (xs, rest) ← parseItems n rest
      return (x :: xs, rest)
    | _ => none

/-- A member of an object. -/
def parseMember : ℕ → List Char → Option ((String × Json) × List Char)
  | 0, _ => none
  | n + 1, cs =>
    match skip cs with
    | '"' :: rest => do
      let (k, rest) ← parseChars rest
      match skip rest with
      | ':' :: rest =>
        let (v, rest) ← parseValue n rest
        return ((String.ofList k, v), rest)
      | _ => none
    | _ => none

/-- The members of an object after one of them, up to the closing brace. -/
def parseMembers : ℕ → List Char → Option (List (String × Json) × List Char)
  | 0, _ => none
  | n + 1, cs =>
    match skip cs with
    | '}' :: rest => some ([], rest)
    | ',' :: rest => do
      let (m, rest) ← parseMember n rest
      let (ms, rest) ← parseMembers n rest
      return (m :: ms, rest)
    | _ => none

end

/-- A whole text as one value, with nothing but blanks behind it. -/
def parse (cs : List Char) : Option Json :=
  match parseValue cs.length cs with
  | some (j, rest) => if skip rest = [] then some j else none
  | none => none

/-- Bytes as one value: they must be UTF-8 and hold one JSON text. -/
def ofBytes (b : ByteArray) : Option Json :=
  match String.fromUTF8? b with
  | some s => parse s.toList
  | none => none

/-! ### Strings read back -/

theorem hexValue_hexDigit {n : ℕ} (h : n < 16) : hexValue (hexDigit n) = some n := by
  have : ∀ m < 16, hexValue (hexDigit m) = some m := by decide
  exact this n h

/-- The code unit of the four-digit form the printer writes. -/
theorem codeUnit_hexDigit {c : Char} (h : c.toNat < 32) :
    codeUnit '0' '0' (hexDigit (c.toNat / 16)) (hexDigit (c.toNat % 16)) = some c.toNat := by
  have h0 : hexValue '0' = some 0 := by decide
  simp only [codeUnit, h0, hexValue_hexDigit (show c.toNat / 16 < 16 by omega),
    hexValue_hexDigit (show c.toNat % 16 < 16 by omega), Option.bind_eq_bind, Option.bind_some,
    Option.pure_def, Option.some.injEq]
  omega

/-- **One escaped character is read as that character.** -/
theorem parseChars_escape (c : Char) (cs : List Char) :
    parseChars (escape c ++ cs) = (parseChars cs).map fun p => (c :: p.1, p.2) := by
  have hslash : ¬ '\\' = '"' := by decide
  rcases escape_cases c with ⟨d, he, -, -, hu, hd⟩ | ⟨hc, he⟩ | ⟨hc, hq, hs, he⟩
  · rw [he, List.cons_append, List.cons_append, List.nil_append, parseChars.eq_def]
    simp only [hslash, if_false, if_true, hu, hd]
  · rw [he, List.cons_append, List.cons_append, parseChars.eq_def]
    simp only [hslash, if_false, if_true, List.cons_append, List.nil_append,
      codeUnit_hexDigit hc, if_pos (show c.toNat < 0xD800 ∨ 0xDFFF < c.toNat by omega),
      Char.ofNat_toNat]
  · rw [he, List.cons_append, List.nil_append, parseChars.eq_def]
    simp only [hq, hs, if_false, if_neg (show ¬c.toNat < 32 by omega)]

/-- **A quoted string is read back.** -/
theorem parseChars_flatMap_escape (cs r : List Char) :
    parseChars (cs.flatMap escape ++ '"' :: r) = some (cs, r) := by
  induction cs with
  | nil =>
    rw [List.flatMap_nil, List.nil_append, parseChars.eq_def]
    simp only [if_true]
  | cons c cs ih =>
    rw [List.flatMap_cons, List.append_assoc, parseChars_escape, ih]
    rfl

/-! ### Numbers read back -/

/-- A text in front of which a number ends: it does not go on with a digit, a
fraction or an exponent. -/
def Ends (r : List Char) : Prop :=
  ∀ c, r.head? = some c → c.isDigit = false ∧ c ≠ '.' ∧ c ≠ 'e' ∧ c ≠ 'E'

theorem ends_nil : Ends [] := by
  intro c hc
  cases hc

theorem ends_cons {c : Char} {r : List Char}
    (h : c.isDigit = false ∧ c ≠ '.' ∧ c ≠ 'e' ∧ c ≠ 'E') : Ends (c :: r) := by
  intro d hd
  obtain rfl : c = d := by simpa using hd
  exact h

/-- A positive number does not begin with a zero. -/
theorem head?_toDigits_ne {n : ℕ} (h : 0 < n) : (Nat.toDigits 10 n).head? ≠ some '0' := by
  induction n using Nat.strong_induction_on with
  | _ n ih =>
    by_cases hn : n < 10
    · rw [Nat.toDigits_of_lt_base hn]
      have : ∀ m < 10, 0 < m → m.digitChar ≠ '0' := by decide
      simpa using this n hn h
    · rw [Nat.toDigits_of_base_le (by omega) (by omega), List.head?_append_of_ne_nil]
      · exact ih (n / 10) (by omega) (by omega)
      · exact Nat.toDigits_ne_nil

theorem parseNat_toDigits (n : ℕ) {r : List Char} (hr : Ends r) :
    parseNat (Nat.toDigits 10 n ++ r) = some (n, r) := by
  have hdigits : ∀ c ∈ Nat.toDigits 10 n, c.isDigit = true := fun c hc =>
    Nat.isDigit_of_mem_toDigits (by omega) (by omega) hc
  have htail : r.takeWhile Char.isDigit = [] ∧ r.dropWhile Char.isDigit = r := by
    cases r with
    | nil => exact ⟨rfl, rfl⟩
    | cons c r => simp [(hr c rfl).1]
  have htake : (Nat.toDigits 10 n ++ r).takeWhile Char.isDigit = Nat.toDigits 10 n := by
    rw [List.takeWhile_append_of_pos hdigits, htail.1, List.append_nil]
  have hdrop : (Nat.toDigits 10 n ++ r).dropWhile Char.isDigit = r := by
    rw [List.dropWhile_append_of_pos hdigits, htail.2]
  have hlead : ¬(Nat.toDigits 10 n = [] ∨
      ((Nat.toDigits 10 n).head? = some '0' ∧ (Nat.toDigits 10 n).length ≠ 1)) := by
    rintro (h | ⟨h, hlen⟩)
    · exact Nat.toDigits_ne_nil h
    · rcases Nat.eq_zero_or_pos n with rfl | hn
      · exact hlen rfl
      · exact head?_toDigits_ne hn h
  have hend : ¬(r.head? = some '.' ∨ r.head? = some 'e' ∨ r.head? = some 'E') := by
    rintro (h | h | h)
    · exact (hr _ h).2.1 rfl
    · exact (hr _ h).2.2.1 rfl
    · exact (hr _ h).2.2.2 rfl
  rw [parseNat, htake, hdrop, if_neg hlead, if_neg hend, Nat.ofDigitChars_ten_toDigits]

theorem parseNum_intText (n : ℤ) {r : List Char} (hr : Ends r) :
    parseNum (intText n ++ r) = some (.num n, r) := by
  cases n with
  | ofNat n =>
    have hne : ∀ cs, intText (.ofNat n) ++ r ≠ '-' :: cs := by
      intro cs h
      have hhead : (Nat.toDigits 10 n).head? = some '-' := by
        have := congrArg List.head? h
        rwa [intText, List.head?_append_of_ne_nil _ Nat.toDigits_ne_nil] at this
      have hmem : '-' ∈ Nat.toDigits 10 n := List.mem_of_head? hhead
      exact absurd (Nat.isDigit_of_mem_toDigits (by omega) (by omega) hmem) (by decide)
    rw [parseNum]
    · rw [intText, parseNat_toDigits n hr]
      rfl
    · exact hne
  | negSucc n =>
    rw [intText, List.cons_append, parseNum, parseNat_toDigits (n + 1) hr]

/-! ### Values read back -/

theorem skip_cons {c : Char} (cs : List Char) (h : isBlank c = false) :
    skip (c :: cs) = c :: cs := by
  simp [skip, h]

/-- The first character of a number is a digit or a sign. -/
theorem intText_eq_cons (n : ℤ) : ∃ c cs, intText n = c :: cs ∧ (c.isDigit = true ∨ c = '-') := by
  cases h : intText n with
  | nil =>
    cases n with
    | ofNat n => exact absurd h Nat.toDigits_ne_nil
    | negSucc n => cases h
  | cons c cs => exact ⟨c, cs, rfl, intText_ascii n c (by simp [h])⟩

/-- A digit or a sign is none of the characters the parser branches on. -/
theorem digit_or_sign_ne {c : Char} (h : c.isDigit = true ∨ c = '-') :
    isBlank c = false ∧ c ≠ ']' ∧ c ≠ 'n' ∧ c ≠ 't' ∧ c ≠ 'f' ∧ c ≠ '"' ∧ c ≠ '[' ∧ c ≠ '{' := by
  rcases h with h | rfl
  · have hblank : isBlank c = false := by
      by_contra hb
      simp only [isBlank, Bool.not_eq_false, Bool.or_eq_true, decide_eq_true_eq] at hb
      rcases hb with ((rfl | rfl) | rfl) | rfl <;> exact absurd h (by decide)
    refine ⟨hblank, ?_, ?_, ?_, ?_, ?_, ?_, ?_⟩ <;> rintro rfl <;> exact absurd h (by decide)
  · decide

/-- **How a text begins**: neither with a blank nor with a closing bracket. -/
theorem text_eq_cons : ∃ c cs, text j = c :: cs ∧ isBlank c = false ∧ c ≠ ']' := by
  rcases j with _ | (_ | _) | n | s | (_ | _) | (_ | ⟨⟨_, _⟩, _⟩)
  case num =>
    obtain ⟨c, cs, h, hc⟩ := intText_eq_cons n
    exact ⟨c, cs, h, (digit_or_sign_ne hc).1, (digit_or_sign_ne hc).2.1⟩
  all_goals exact ⟨_, _, rfl, by decide, by decide⟩
/-- A number is read by the last branch. -/
theorem parseValue_num (n : ℕ) (i : ℤ) {r : List Char} (hr : Ends r) :
    parseValue (n + 1) (intText i ++ r) = some (.num i, r) := by
  obtain ⟨c, cs, h, hc⟩ := intText_eq_cons i
  obtain ⟨h1, -, h2, h3, h4, h5, h6, h7⟩ := digit_or_sign_ne hc
  have hnum := parseNum_intText i hr
  rw [h, List.cons_append] at hnum ⊢
  rw [parseValue, skip_cons _ h1]
  simp only [h2, h3, h4, h5, h6, h7, if_false]
  exact hnum

/-- A text that does not begin with a blank does not lose its first character. -/
theorem skip_ne_cons {c d : Char} {ds : List Char} (hblank : isBlank d = false) (hne : d ≠ c) :
    ∀ rest, skip (d :: ds) ≠ c :: rest := by
  intro rest h
  rw [skip_cons ds hblank] at h
  exact hne (List.cons.inj h).1

/-- A nonempty array is its first item and the rest of its items. -/
theorem parseValue_arr {n : ℕ} {x : Json} {xs : List Json} {cs mid r : List Char}
    (hhead : ∀ rest, skip cs ≠ ']' :: rest)
    (hx : parseValue n cs = some (x, mid)) (hxs : parseItems n mid = some (xs, r)) :
    parseValue (n + 1) ('[' :: cs) = some (.arr (x :: xs), r) := by
  rw [parseValue, skip_cons _ (by decide)]
  have h2 : ¬ '[' = 'n' := by decide
  have h3 : ¬ '[' = 't' := by decide
  have h4 : ¬ '[' = 'f' := by decide
  have h5 : ¬ '[' = '"' := by decide
  -- the equation of the branch for an empty array is ruled out by the head of the text
  simp only [h2, h3, h4, h5, if_false, if_true]
  rw [hx]
  simp only [Option.bind_eq_bind, Option.bind_some, hxs, Option.pure_def]

/-- A nonempty object is its first member and the rest of its members. -/
theorem parseValue_obj {n : ℕ} {m : String × Json} {ms : List (String × Json)}
    {cs mid r : List Char} (hhead : ∀ rest, skip cs ≠ '}' :: rest)
    (hm : parseMember n cs = some (m, mid)) (hms : parseMembers n mid = some (ms, r)) :
    parseValue (n + 1) ('{' :: cs) = some (.obj (m :: ms), r) := by
  rw [parseValue, skip_cons _ (by decide)]
  have h2 : ¬ '{' = 'n' := by decide
  have h3 : ¬ '{' = 't' := by decide
  have h4 : ¬ '{' = 'f' := by decide
  have h5 : ¬ '{' = '"' := by decide
  have h6 : ¬ '{' = '[' := by decide
  simp only [h2, h3, h4, h5, h6, if_false, if_true]
  rw [hm]
  simp only [Option.bind_eq_bind, Option.bind_some, hms, Option.pure_def]

/-- A member is its quoted key, a colon and its value. -/
theorem parseMember_quote {n : ℕ} (k : String) {v : Json} {cs r : List Char}
    (hv : parseValue n cs = some (v, r)) :
    parseMember (n + 1) (quote k ++ ':' :: cs) = some ((k, v), r) := by
  have hkey : quote k ++ ':' :: cs =
      '"' :: (k.toList.flatMap escape ++ '"' :: ':' :: cs) := by
    simp [quote]
  rw [hkey, parseMember, skip_cons _ (by decide)]
  simp only [parseChars_flatMap_escape, Option.bind_eq_bind, Option.bind_some]
  rw [skip_cons _ (by decide)]
  simp only [hv, Option.bind_some, Option.pure_def, String.ofList_toList]

theorem ends_comma : Ends (',' :: r) := ends_cons (by decide)

theorem ends_bracket : Ends (']' :: r) := ends_cons (by decide)
theorem ends_brace : Ends ('}' :: r) := ends_cons (by decide)
theorem ends_itemsText (xs : List Json) (r : List Char) : Ends (itemsText xs ++ ']' :: r) := by
  cases xs with
  | nil => exact ends_bracket r
  | cons x xs => exact ends_comma _

theorem ends_membersText (ms : List (String × Json)) (r : List Char) :
    Ends (membersText ms ++ '}' :: r) := by
  cases ms with
  | nil => exact ends_brace r
  | cons m ms =>
    obtain ⟨k, v⟩ := m
    exact ends_comma _

theorem length_quote (k : String) : 2 ≤ (quote k).length := by
  simp [quote]

mutual

/-- **The parser inverts the printer**, in front of any text a number may end at and
with one unit of fuel for each character. -/
theorem parseValue_text : ∀ (j : Json) (n : ℕ) (r : List Char), (text j).length ≤ n → Ends r →
    parseValue n (text j ++ r) = some (j, r)
  | j, 0, r, hn, _ => by
    obtain ⟨c, cs, h, -⟩ := text_eq_cons j
    rw [h] at hn
    cases hn
  | .null, n + 1, r, _, _ => rfl
  | .bool true, n + 1, r, _, _ => rfl
  | .bool false, n + 1, r, _, _ => rfl
  | .num i, n + 1, r, _, hr => parseValue_num n i hr
  | .str s, n + 1, r, _, _ => by
    have hquote : text (.str s) ++ r = '"' :: (s.toList.flatMap escape ++ '"' :: r) := by
      simp [text, quote]
    have h2 : ¬ '"' = 'n' := by decide
    have h3 : ¬ '"' = 't' := by decide
    have h4 : ¬ '"' = 'f' := by decide
    rw [hquote, parseValue, skip_cons _ (by decide)]
    simp only [h2, h3, h4, if_false, if_true, parseChars_flatMap_escape, Option.map_some,
      String.ofList_toList]
  | .arr [], n + 1, r, _, _ => rfl
  | .arr (x :: xs), n + 1, r, hn, hr => by
    simp only [text, List.length_cons, List.length_append, List.length_nil] at hn
    have harr : text (.arr (x :: xs)) ++ r =
        '[' :: (text x ++ (itemsText xs ++ ']' :: r)) := by
      simp [text]
    rw [harr]
    refine parseValue_arr ?_ (parseValue_text x n _ (by omega) (ends_itemsText xs r))
      (parseItems_itemsText xs n r (by omega))
    obtain ⟨c, cs, h, hblank, hc⟩ := text_eq_cons x
    rw [h, List.cons_append]
    exact skip_ne_cons hblank hc
  | .obj [], n + 1, r, _, _ => rfl
  | .obj ((k, v) :: ms), n + 1, r, hn, hr => by
    have hk := length_quote k
    simp only [text, List.length_cons, List.length_append, List.length_nil] at hn
    obtain ⟨n, rfl⟩ : ∃ m, n = m + 1 := ⟨n - 1, by omega⟩
    have hobj : text (.obj ((k, v) :: ms)) ++ r =
        '{' :: (quote k ++ ':' :: (text v ++ (membersText ms ++ '}' :: r))) := by
      simp [text]
    have hmember := parseMember_quote k (parseValue_text v n _ (by omega) (ends_membersText ms r))
    rw [hobj]
    exact parseValue_obj (skip_ne_cons rfl (by decide)) hmember
      (parseMembers_membersText ms (n + 1) r (by omega))

theorem parseItems_itemsText : ∀ (xs : List Json) (n : ℕ) (r : List Char),
    (itemsText xs).length + 1 ≤ n → parseItems n (itemsText xs ++ ']' :: r) = some (xs, r)
  | _, 0, r, hn => by omega
  | [], n + 1, r, _ => rfl
  | x :: xs, n + 1, r, hn => by
    simp only [itemsText, List.length_cons, List.length_append] at hn
    have hitems : itemsText (x :: xs) ++ ']' :: r =
        ',' :: (text x ++ (itemsText xs ++ ']' :: r)) := by
      simp [itemsText]
    rw [hitems, parseItems, skip_cons _ (by decide)]
    simp only [parseValue_text x n _ (show (text x).length ≤ n by omega) (ends_itemsText xs r),
      parseItems_itemsText xs n r (by omega), Option.bind_eq_bind, Option.bind_some,
      Option.pure_def]

theorem parseMembers_membersText : ∀ (ms : List (String × Json)) (n : ℕ) (r : List Char),
    (membersText ms).length + 1 ≤ n → parseMembers n (membersText ms ++ '}' :: r) = some (ms, r)
  | _, 0, r, hn => by omega
  | [], n + 1, r, _ => rfl
  | (k, v) :: ms, n + 1, r, hn => by
    have hk := length_quote k
    simp only [membersText, List.length_cons, List.length_append] at hn
    obtain ⟨n, rfl⟩ : ∃ m, n = m + 1 := ⟨n - 1, by omega⟩
    have hmembers : membersText ((k, v) :: ms) ++ '}' :: r =
        ',' :: (quote k ++ ':' :: (text v ++ (membersText ms ++ '}' :: r))) := by
      simp [membersText]
    have hmember := parseMember_quote k (parseValue_text v n _ (by omega) (ends_membersText ms r))
    rw [hmembers, parseMembers, skip_cons _ (by decide)]
    simp only [hmember, parseMembers_membersText ms (n + 1) r (by omega), Option.bind_eq_bind,
      Option.bind_some, Option.pure_def]

end

/-- **A printed value is read back as that value.** -/
@[simp] theorem parse_text : parse (text j) = some j := by
  have h := parseValue_text j (text j).length [] le_rfl ends_nil
  rw [List.append_nil] at h
  rw [parse, h]
  rfl

/-- The bytes of a text are UTF-8. -/
theorem fromUTF8?_toByteArray (s : String) : String.fromUTF8? s.toByteArray = some s := by
  rw [String.fromUTF8?, dif_pos s.isValidUTF8]
  rfl

/-- **A value written to bytes is read back from them.** -/
@[simp] theorem ofBytes_bytes : ofBytes j.bytes = some j := by
  rw [ofBytes, bytes, fromUTF8?_toByteArray]
  simp only [String.toList_ofList, parse_text]

end Json

end Rivloom
