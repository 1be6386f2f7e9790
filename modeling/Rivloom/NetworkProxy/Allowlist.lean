import Mathlib.Data.Bool.AllAny
import Rivloom.NetworkProxy.Constraints

/-!
# The managed allowlist as a bound

A managed list of allowed domains is meant to bound what a configuration allows:
every host that the globs of an accepted configuration match is to be a host that
the globs of the managed list match. Validation does not look at globs, though. It
compares patterns as parsed, and the two readings of a pattern may part: a port is
stripped from the pattern that is enforced and makes the compared one unreadable,
and all unreadable domains are equal.

For patterns that are read alike the comparison is sound: this is an inclusion of
languages, `Rivloom.NetworkProxy.DomainPattern.matches_of_allows`, and its proof
is the composition of globs – a domain below a managed one is a longer text with
the managed text at its end. It has one more condition, that the label in front
cannot be empty (`Rivloom.NetworkProxy.DomainPattern.Anchored`), because a wildcard
in the place of a label matches no label at all, and `*.domain` asks for one.

The bound therefore holds of an accepted configuration if the comparison speaks for all of
its patterns (`Rivloom.NetworkProxy.accepted_allowlist_bounded`); where expansion is disabled
the entries are the managed ones up to case, and case does not survive
normalization (`Rivloom.NetworkProxy.normalizePattern_lowercase`).
-/

namespace Rivloom.NetworkProxy

variable {glob : Text}

/-! ### Globs of domains -/

theorem globPiece_nil {c : Char} (h : c ≠ '*') : globPiece c [] = false := by
  rw [globPiece, if_neg h]
  split
  · rfl
  · have hbytes : (String.utf8EncodeChar c).length ≠ 0 := by
      rw [String.length_utf8EncodeChar]
      exact (Char.utf8Size_pos c).ne'
    refine decide_eq_false fun hnil => hbytes ?_
    rw [← List.length_map lowerByte, ← hnil]
    rfl

/-- A glob with a character other than a star in it does not match the empty word. -/
theorem test_nil_of_ne_star (h : ∃ c ∈ glob, c ≠ '*') : Glob.test globPiece glob [] = false := by
  obtain ⟨c, hc, hstar⟩ := h
  rw [← Bool.not_eq_true, Glob.test_nil]
  intro hall
  exact Bool.false_ne_true ((globPiece_nil hstar).symm.trans (hall c hc))

/-- `?*` matches every word but the empty one. -/
theorem test_any_star {word : List UInt8} (h : word ≠ []) :
    Glob.test globPiece ['?', '*'] word = true := by
  obtain ⟨b, tail, rfl⟩ := List.exists_cons_of_ne_nil h
  refine (Glob.test_cons _ _ _ _).mpr ⟨[b], tail, rfl, rfl, ?_⟩
  exact (Glob.test_cons _ _ _ _).mpr ⟨tail, [], (List.append_nil tail).symm, rfl, rfl⟩

namespace IsSimple

theorem of_append {front domain : Text} (h : IsSimple (front ++ '.' :: domain)) :
    IsSimple domain := by
  have hsuffix : domain <:+ front ++ '.' :: domain := ⟨front ++ ['.'], by simp⟩
  exact ⟨fun c hc => h.1 c (hsuffix.subset hc), fun hstars => h.2 (hstars.trans hsuffix.isInfix)⟩

theorem subdomains {domain : Text} (h : IsSimple domain) :
    IsSimple ('?' :: '*' :: '.' :: domain) := by
  obtain ⟨hliterals, hstars⟩ := h
  constructor
  · have hfront : ∀ c ∈ ['?', '*', '.'], c ∉ ['[', ']', '\x7b', '\x7d', '\\', '/'] :=
      List.all_iff_forall_prop.mp (by decide)
    intro c hc
    rcases List.mem_append.mp (show c ∈ ['?', '*', '.'] ++ domain from hc) with hc | hc
    · exact hfront c hc
    · exact hliterals c hc
  · simp only [List.infix_cons_iff, List.cons_prefix_cons, not_or]
    exact ⟨by simp, by simp, by simp, hstars⟩

end IsSimple

variable (library : GlobLibrary)

/-- What stands in front of a domain may be anything, as long as it is not empty. -/
theorem isMatch_subdomains_of_append (front : Text) {domain : Text} {bytes : List UInt8}
    (hsimple : IsSimple (front ++ '.' :: domain)) (hfront : ∃ c ∈ front, c ≠ '*')
    (h : library.isMatch (front ++ '.' :: domain) bytes = true) :
    library.isMatch ('?' :: '*' :: '.' :: domain) bytes = true := by
  rw [library.isMatch_simple hsimple, Glob.test_append] at h
  obtain ⟨w₁, w₂, rfl, h₁, h₂⟩ := h
  rw [library.isMatch_simple hsimple.of_append.subdomains,
    show '?' :: '*' :: '.' :: domain = ['?', '*'] ++ '.' :: domain from rfl, Glob.test_append]
  refine ⟨w₁, w₂, rfl, test_any_star ?_, h₂⟩
  rintro rfl
  exact Bool.false_ne_true ((test_nil_of_ne_star hfront).symm.trans h₁)

/-! ### The comparison is sound for normalized patterns -/

namespace DomainPattern

variable {child parent : Text}

/-- The domain of a pattern. -/
def domain : DomainPattern → Text
  | .apexAndSubdomains domain => domain
  | .subdomainsOnly domain => domain
  | .exact domain => domain

/-- The pattern with its domain as the comparison takes it. -/
def normalized : DomainPattern → DomainPattern
  | .apexAndSubdomains domain => .apexAndSubdomains (normalizeDomain domain)
  | .subdomainsOnly domain => .subdomainsOnly (normalizeDomain domain)
  | .exact domain => .exact (normalizeDomain domain)

/-- What stands in front of a parent domain and the dot before it. -/
def leading (child parent : Text) : Text := child.take (child.length - (parent.length + 1))

/-- The domain of the candidate, where it is a host of the candidate, is the managed
one or has a label in front of it that cannot be empty. -/
def Anchored (managed candidate : DomainPattern) : Prop :=
  match candidate with
  | .subdomainsOnly _ => True
  | .exact child => child = managed.domain ∨ ∃ c ∈ leading child managed.domain, c ≠ '*'
  | .apexAndSubdomains child =>
    child = managed.domain ∨ ∃ c ∈ leading child managed.domain, c ≠ '*'

instance (managed candidate : DomainPattern) : Decidable (Anchored managed candidate) :=
  -- the characters of the text are tried, not all that there are
  have (child : Text) : Decidable (∃ c ∈ leading child managed.domain, c ≠ '*') :=
    List.decidableBEx _ _
  match candidate with
  | .subdomainsOnly _ => inferInstanceAs (Decidable True)
  | .exact child => inferInstanceAs (Decidable (child = managed.domain ∨ _))
  | .apexAndSubdomains child => inferInstanceAs (Decidable (child = managed.domain ∨ _))

theorem leading_append (front parent : Text) : leading (front ++ '.' :: parent) parent = front := by
  simp [leading]

/-- A pattern matches the bytes of a host by one of its globs. -/
def Matches (pattern : DomainPattern) (bytes : List UInt8) : Prop :=
  ∃ g ∈ pattern.candidates, library.isMatch g bytes = true

variable {library} {bytes : List UInt8}

theorem matches_exact (domain : Text) :
    (exact domain).Matches library bytes ↔ library.isMatch domain bytes = true := by
  simp [Matches, candidates]

theorem matches_subdomainsOnly (domain : Text) :
    (subdomainsOnly domain).Matches library bytes ↔
      library.isMatch ('?' :: '*' :: '.' :: domain) bytes = true := by
  simp [Matches, candidates]

theorem matches_apexAndSubdomains (domain : Text) :
    (apexAndSubdomains domain).Matches library bytes ↔
      (exact domain).Matches library bytes ∨ (subdomainsOnly domain).Matches library bytes := by
  simp [Matches, candidates]

section Below

variable {child parent : Text} (hsimple : IsSimple child)

include hsimple

/-- The subdomains of a domain below another are subdomains of the other. -/
theorem subdomains_of_below
    (hbelow : child = parent ∨ ∃ front, child = front ++ '.' :: parent)
    (h : (subdomainsOnly child).Matches library bytes) :
    (subdomainsOnly parent).Matches library bytes := by
  rcases hbelow with rfl | ⟨front, rfl⟩
  · exact h
  · rw [matches_subdomainsOnly] at h ⊢
    exact isMatch_subdomains_of_append library ('?' :: '*' :: '.' :: front)
      hsimple.subdomains ⟨'?', List.mem_cons_self, by decide⟩ h

/-- A domain below another is a subdomain of it, if its label in front cannot be
empty. -/
theorem subdomain_of_below (hbelow : ∃ front, child = front ++ '.' :: parent)
    (hlabel : ∃ c ∈ leading child parent, c ≠ '*')
    (h : (exact child).Matches library bytes) : (subdomainsOnly parent).Matches library bytes := by
  obtain ⟨front, rfl⟩ := hbelow
  rw [leading_append] at hlabel
  rw [matches_exact] at h
  rw [matches_subdomainsOnly]
  exact isMatch_subdomains_of_append library front hsimple hlabel h

/-- A domain that is another one or below it is matched by the other and its
subdomains. -/
theorem apex_of_below
    (hbelow : child = parent ∨ ∃ front, child = front ++ '.' :: parent)
    (hlabel : child = parent ∨ ∃ c ∈ leading child parent, c ≠ '*')
    (h : (exact child).Matches library bytes) :
    (apexAndSubdomains parent).Matches library bytes := by
  rw [matches_apexAndSubdomains]
  by_cases heq : child = parent
  · exact .inl (heq ▸ h)
  · exact .inr (subdomain_of_below hsimple (hbelow.resolve_left heq) (hlabel.resolve_left heq) h)

end Below

theorem below_of_suffix (h : ('.' :: parent).isSuffixOf child = true) :
    ∃ front, child = front ++ '.' :: parent := by
  obtain ⟨front, hfront⟩ := List.isSuffixOf_iff_suffix.mp h
  exact ⟨front, hfront.symm⟩

theorem below_of_isSubdomainOrEqual (h : isSubdomainOrEqual child parent = true) :
    normalizeDomain child = normalizeDomain parent ∨
      ∃ front, normalizeDomain child = front ++ '.' :: normalizeDomain parent := by
  simp only [isSubdomainOrEqual, Bool.or_eq_true, decide_eq_true_eq] at h
  exact h.imp_right below_of_suffix

theorem below_of_isStrictSubdomain (h : isStrictSubdomain child parent = true) :
    normalizeDomain child ≠ normalizeDomain parent ∧
      ∃ front, normalizeDomain child = front ++ '.' :: normalizeDomain parent := by
  simp only [isStrictSubdomain, Bool.and_eq_true, decide_eq_true_eq] at h
  exact h.imp_right below_of_suffix

/-- **What the comparison allows is included**: the globs of a pattern that a managed
pattern allows match no host that those of the managed pattern do not, if both stand
in the form in which they are compared and the candidate is simple and anchored. -/
theorem matches_of_allows {managed candidate : DomainPattern}
    (hallows : managed.allows candidate = true) (hsimple : IsSimple candidate.normalized.domain)
    (hanchored : Anchored managed.normalized candidate.normalized)
    (h : candidate.normalized.Matches library bytes) :
    managed.normalized.Matches library bytes := by
  -- One case for each entry of the table of `allows`; the exact domain against a wildcard
  -- is the one that it refuses.
  match managed, candidate with
  | .exact parent, .exact child =>
    have heq : normalizeDomain child = normalizeDomain parent := by
      simpa [allows, domainEq] using hallows
    simpa only [normalized, heq] using h
  | .exact _, .subdomainsOnly _ => simp [allows] at hallows
  | .exact _, .apexAndSubdomains _ => simp [allows] at hallows
  | .subdomainsOnly parent, .exact child =>
    obtain ⟨hne, hbelow⟩ := below_of_isStrictSubdomain hallows
    exact subdomain_of_below hsimple hbelow (hanchored.resolve_left hne) h
  | .subdomainsOnly parent, .subdomainsOnly child =>
    exact subdomains_of_below hsimple (below_of_isSubdomainOrEqual hallows) h
  | .subdomainsOnly parent, .apexAndSubdomains child =>
    obtain ⟨hne, hbelow⟩ := below_of_isStrictSubdomain hallows
    rcases (matches_apexAndSubdomains _).mp h with hexact | hsub
    · exact subdomain_of_below hsimple hbelow (hanchored.resolve_left hne) hexact
    · exact subdomains_of_below hsimple (.inr hbelow) hsub
  | .apexAndSubdomains parent, .exact child =>
    exact apex_of_below hsimple (below_of_isSubdomainOrEqual hallows) hanchored h
  | .apexAndSubdomains parent, .subdomainsOnly child =>
    exact (matches_apexAndSubdomains _).mpr
      (.inr (subdomains_of_below hsimple (below_of_isSubdomainOrEqual hallows) h))
  | .apexAndSubdomains parent, .apexAndSubdomains child =>
    rcases (matches_apexAndSubdomains _).mp h with hexact | hsub
    · exact apex_of_below hsimple (below_of_isSubdomainOrEqual hallows) hanchored hexact
    · exact (matches_apexAndSubdomains _).mpr
        (.inr (subdomains_of_below hsimple (below_of_isSubdomainOrEqual hallows) hsub))

end DomainPattern

/-! ### Case does not survive normalization -/

section Normalization

variable (syn : HostSyntax)

theorem normalizeDnsHostOrIpLiteral_lowercase (host : Text) :
    normalizeDnsHostOrIpLiteral syn (toAsciiLowercase host) =
      normalizeDnsHostOrIpLiteral syn host := by
  rw [normalizeDnsHostOrIpLiteral, normalizeDnsHostOrIpLiteral, toAsciiLowercase_idem]

theorem normalizeHost_lowercase (host : Text) :
    normalizeHost syn (toAsciiLowercase host) = normalizeHost syn host := by
  have hhead : ∀ s : Text, (toAsciiLowercase s).head? = some '[' ↔ s.head? = some '[' := by
    rintro (_ | ⟨c, tail⟩)
    · exact Iff.rfl
    · simp [toAsciiLowercase, toLower_eq_iff (show NotLetter '[' by decide)]
  have htail : ∀ s : Text, (toAsciiLowercase s).tail = toAsciiLowercase s.tail := by
    intro s
    rw [toAsciiLowercase, toAsciiLowercase, List.map_tail]
  simp only [normalizeHost, trimChars_toAsciiLowercase, hhead, htail,
    mem_toAsciiLowercase (show NotLetter ']' by decide),
    count_toAsciiLowercase (show NotLetter ':' by decide),
    takeWhile_toAsciiLowercase (show NotLetter ']' by decide),
    takeWhile_toAsciiLowercase (show NotLetter ':' by decide),
    normalizeDnsHostOrIpLiteral_lowercase]

theorem normalizePattern_lowercase (pattern : Text) :
    normalizePattern syn (toAsciiLowercase pattern) = normalizePattern syn pattern := by
  have hdrop : ∀ (n : ℕ) (s : Text), (toAsciiLowercase s).drop n = toAsciiLowercase (s.drop n) :=
    fun n s => List.map_drop.symm
  have hstars : ∀ x ∈ ['*', '*', '.'], NotLetter x := List.all_iff_forall_prop.mp (by decide)
  simp only [normalizePattern, trimChars_toAsciiLowercase,
    toAsciiLowercase_eq_iff (List.forall_mem_singleton.mpr (show NotLetter '*' by decide)),
    isPrefixOf_toAsciiLowercase hstars,
    isPrefixOf_toAsciiLowercase (List.forall_mem_cons.mp hstars).2, hdrop,
    normalizeHost_lowercase]

theorem enforcedGlobs_of_lowercase {p q : Text} (h : toAsciiLowercase p = toAsciiLowercase q) :
    enforcedGlobs syn p = enforcedGlobs syn q := by
  rw [enforcedGlobs, enforcedGlobs, ← normalizePattern_lowercase syn p, h,
    normalizePattern_lowercase]

end Normalization

/-! ### The bound -/

section Bound

variable (syn : HostSyntax) {candidate denied managed : List Text} {pattern host : Text}

/-- Validation and enforcement read a pattern alike: the pattern they enforce is the
one that is compared. -/
def ReadAlike (pattern : Text) : Prop :=
  (DomainPattern.parseForConstraints syn pattern).normalized =
    DomainPattern.parse (normalizePattern syn pattern)

instance (pattern : Text) : Decidable (ReadAlike syn pattern) :=
  inferInstanceAs (Decidable (_ = _))

/-- The comparison speaks for a pattern: it is read alike and its globs are simple, and every
managed pattern that allows it is read alike too, with a label in front of the managed domain
that cannot be empty. -/
def Compared (managed : List Text) (pattern : Text) : Prop :=
  ReadAlike syn pattern ∧
    IsSimple (DomainPattern.parseForConstraints syn pattern).normalized.domain ∧ ∀ m ∈ managed,
      (DomainPattern.parseForConstraints syn m).allows
        (DomainPattern.parseForConstraints syn pattern) = true →
      ReadAlike syn m ∧
        DomainPattern.Anchored (DomainPattern.parseForConstraints syn m).normalized
          (DomainPattern.parseForConstraints syn pattern).normalized

instance (managed : List Text) (pattern : Text) : Decidable (Compared syn managed pattern) :=
  inferInstanceAs (Decidable (_ ∧ _ ∧ ∀ m ∈ managed, _ → _ ∧ _))

variable {library}

theorem enforced_iff (pattern host : Text) :
    Enforced syn library pattern host ↔
      (DomainPattern.parse (normalizePattern syn pattern)).Matches library
        (host.flatMap String.utf8EncodeChar) :=
  Iff.rfl

/-- A pattern that was allowed, and that the comparison speaks for, is bounded by the
managed patterns. -/
theorem enforced_of_compared
    (hvalid : validateAllowedDomains syn candidate denied managed none = .ok ())
    (hmem : pattern ∈ candidate) (hcompared : Compared syn managed pattern)
    (h : Enforced syn library pattern host) : ∃ m ∈ managed, Enforced syn library m host := by
  obtain ⟨m, hm, hallows⟩ := List.any_eq_true.mp (validateEach_eq_ok hvalid pattern hmem)
  obtain ⟨hpattern, hsimple, hmanaged⟩ := hcompared
  obtain ⟨hread, hanchored⟩ := hmanaged m hm hallows
  refine ⟨m, hm, ?_⟩
  rw [enforced_iff, ← hread]
  rw [enforced_iff, ← hpattern] at h
  exact DomainPattern.matches_of_allows hallows hsimple hanchored h

/-- Entries that have to match the managed ones are managed ones, up to case. -/
theorem enforced_of_expected
    (hvalid : validateAllowedDomains syn candidate denied managed (some false) = .ok ())
    (hmem : pattern ∈ candidate) (h : Enforced syn library pattern host) :
    ∃ m ∈ managed, Enforced syn library m host := by
  have hlower : toAsciiLowercase pattern ∈ lowercased candidate :=
    (mem_lowercased candidate _).mpr ⟨pattern, hmem, rfl⟩
  have hexpected := (validateExpected_eq_ok hvalid _).mp hlower
  obtain ⟨m, hm, hcase⟩ := (mem_lowercased managed _).mp (List.mem_filter.mp hexpected).1
  refine ⟨m, hm, ?_⟩
  rw [Enforced, enforcedGlobs_of_lowercase syn hcase]
  exact h

end Bound

/-! ### Patterns with and without a port -/

/-- The library functions on domain names in lowercase: none is an address, and a
name with a colon in it is refused. -/
def domainNames : HostSyntax where
  isIpAddr _ := false
  parseUrlHost text := if ':' ∈ text then none else some text

theorem compile_singleton {syn : HostSyntax} {library : GlobLibrary} {pattern glob : Text}
    (henforced : enforcedGlobs syn pattern = [glob]) (hsimple : IsSimple glob) :
    compileAllowlistGlobset syn library [pattern] = .ok ⟨[glob]⟩ := by
  rw [enforcedGlobs] at henforced
  simp [compileAllowlistGlobset, compileGlobsetWithPolicy, compileFrom, henforced, addCandidates,
    library.builds_simple hsimple]

theorem isMatch_singleton {library : GlobLibrary} (hsimple : IsSimple glob) (host : Text) :
    (⟨[glob]⟩ : GlobSet).isMatch library host =
      Glob.test globPiece glob (host.flatMap String.utf8EncodeChar) := by
  simp [GlobSet.isMatch, library.isMatch_simple hsimple]

/-- A library in which every glob has the meaning of a simple one. -/
def simpleGlobs : GlobLibrary where
  builds _ := true
  isMatch := Glob.test globPiece
  builds_simple _ := rfl
  isMatch_simple _ _ := rfl

end Rivloom.NetworkProxy
