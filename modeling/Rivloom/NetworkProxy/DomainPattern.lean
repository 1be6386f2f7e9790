import Rivloom.Lib.Action
import Rivloom.Lib.Glob
import Rivloom.Lib.RustText

/-!
# Domain patterns of the network proxy

The proxy decides about a host by patterns: an exact host, `*.domain` for the
strict subdomains of a domain, `**.domain` for the domain and its subdomains, and
`*` for every host. This file is a model of how a pattern is read, and a pattern
is read twice, by two different functions:

* for **enforcement**, `Rivloom.NetworkProxy.normalizePattern` brings the text of
  the pattern into the form of a host – it trims, strips a port or brackets,
  lowercases, drops trailing dots – and
  `Rivloom.NetworkProxy.expandDomainPattern` turns what is left into globs, which
  `Rivloom.NetworkProxy.compileGlobsetWithPolicy` collects in a set that is run on
  the normalized host;
* for **validation**, `Rivloom.NetworkProxy.DomainPattern.parseForConstraints`
  parses the text of the pattern with the host parser of the `url` crate, and
  `Rivloom.NetworkProxy.DomainPattern.allows` compares the domains of two patterns
  as texts.

A text is the list of its characters. What the two readings ask of libraries is a
parameter: whether a text is an IP address and what the `url` crate makes of a host
(`Rivloom.NetworkProxy.HostSyntax`), and which globs there are and what they match
(`Rivloom.NetworkProxy.GlobLibrary`), of which only the documented meaning of `*`, `?` and
literal characters is used.
-/

namespace Rivloom.NetworkProxy

/-- The library functions that read hosts. -/
structure HostSyntax where
  /-- `text.parse::<IpAddr>().is_ok()`. -/
  isIpAddr : Text → Bool
  /-- `url::Host::parse(text)`, printed again if it succeeds. -/
  parseUrlHost : Text → Option Text

variable (syn : HostSyntax)

/-! ### Normalized hosts -/

/-- `normalize_ip_literal`: an address as it is, an address with a scope with the
scope behind a plain `%`. -/
def normalizeIpLiteral (host : Text) : Option Text :=
  if syn.isIpAddr host then some host
  else ["%25".toList, "%".toList].findSome? fun delimiter =>
    (splitOnceChars delimiter host).bind fun cut =>
      if syn.isIpAddr cut.1 then some (cut.1 ++ '%' :: cut.2) else none

/-- `normalize_dns_host_or_ip_literal`. -/
def normalizeDnsHostOrIpLiteral (host : Text) : Text :=
  let host := (toAsciiLowercase host).rdropWhile (· == '.')
  (normalizeIpLiteral syn host).getD host

/-- `normalize_host`: trims, takes what brackets hold, strips a port. -/
def normalizeHost (host : Text) : Text :=
  let host := trimChars host
  if host.head? = some '[' ∧ ']' ∈ host then
    normalizeDnsHostOrIpLiteral syn (host.tail.takeWhile (· ≠ ']'))
  else if host.count ':' = 1 then
    -- A single colon is read as the one in front of a port.
    normalizeDnsHostOrIpLiteral syn (host.takeWhile (· ≠ ':'))
  else normalizeDnsHostOrIpLiteral syn host

/-- A host as the policy sees it: a normalized text that is not empty. -/
structure Host where
  text : Text
  normalized : ∃ input, text = normalizeHost syn input
  nonempty : text ≠ []

/-- `Host::parse`. -/
def Host.parse (input : Text) : Option (Host syn) :=
  if h : normalizeHost syn input = [] then none else some ⟨_, ⟨input, rfl⟩, h⟩

/-! ### Patterns for enforcement -/

/-- `normalize_pattern`: the wildcard in front is kept, the rest is normalized as a
host. -/
def normalizePattern (pattern : Text) : Text :=
  let pattern := trimChars pattern
  if pattern = ['*'] then ['*']
  else if ['*', '*', '.'].isPrefixOf pattern then
    ['*', '*', '.'] ++ normalizeHost syn (pattern.drop 3)
  else if ['*', '.'].isPrefixOf pattern then ['*', '.'] ++ normalizeHost syn (pattern.drop 2)
  else normalizeHost syn pattern

/-- `DomainPattern`. -/
inductive DomainPattern where
  /-- `**.domain`, the domain and its subdomains. -/
  | apexAndSubdomains (domain : Text)
  /-- `*.domain`, the strict subdomains. -/
  | subdomainsOnly (domain : Text)
  /-- One host, or a glob without a wildcard label in front. -/
  | exact (domain : Text)
  deriving Repr, DecidableEq

namespace DomainPattern

/-- `DomainPattern::parse_domain`. -/
def parseDomain (domain : Text) (build : Text → DomainPattern) : DomainPattern :=
  let domain := trimChars domain
  if domain = [] then .exact [] else build domain

/-- `DomainPattern::parse`. -/
def parse (input : Text) : DomainPattern :=
  let input := trimChars input
  if input = [] then .exact []
  else if ['*', '*', '.'].isPrefixOf input then parseDomain (input.drop 3) apexAndSubdomains
  else if ['*', '.'].isPrefixOf input then parseDomain (input.drop 2) subdomainsOnly
  else .exact input

/-- The texts of the globs of a pattern. -/
def candidates : DomainPattern → List Text
  | .exact domain => [domain]
  | .subdomainsOnly domain => ['?' :: '*' :: '.' :: domain]
  | .apexAndSubdomains domain => [domain, '?' :: '*' :: '.' :: domain]

end DomainPattern

/-- `expand_domain_pattern`. -/
def expandDomainPattern (pattern : Text) : List Text := (DomainPattern.parse pattern).candidates

/-- `is_global_wildcard_domain_pattern`. -/
def isGlobalWildcardDomainPattern (pattern : Text) : Bool :=
  (expandDomainPattern (normalizePattern syn pattern)).any (· = ['*'])

/-! ### Sets of globs -/

/-- The lowercase form of an ASCII byte; other bytes are left alone. -/
def lowerByte (b : UInt8) : UInt8 := if 65 ≤ b ∧ b ≤ 90 then b + 32 else b

/-- What one character of a glob stands for: `*` for any run of bytes, `?` for any one, and a
literal for itself, regardless of case. -/
def globPiece (c : Char) (word : List UInt8) : Bool :=
  if c = '*' then true
  else if c = '?' then word.length = 1
  else word.map lowerByte = (String.utf8EncodeChar c).map lowerByte

/-- A glob of literal characters, `*` and `?`. Classes, alternatives and escapes have a syntax
of their own, and so has `**`, which is about the separator of paths. -/
def IsSimple (glob : Text) : Prop :=
  (∀ c ∈ glob, c ∉ ['[', ']', '\x7b', '\x7d', '\\', '/']) ∧ ¬['*', '*'] <:+: glob

instance (glob : Text) : Decidable (IsSimple glob) :=
  -- the characters of the text are tried, not all that there are
  have : Decidable (∀ c ∈ glob, c ∉ ['[', ']', '\x7b', '\x7d', '\\', '/']) :=
    List.decidableBAll _ _
  inferInstanceAs (Decidable (_ ∧ _))

/-- **The glob library** `globset`, asked for globs that ignore case: `GlobBuilder::build` takes
some texts, and a glob is run on the bytes of a host. What is known of it is the documented
meaning of simple globs. -/
structure GlobLibrary where
  builds : Text → Bool
  isMatch : Text → List UInt8 → Bool
  builds_simple : ∀ {glob}, IsSimple glob → builds glob = true
  isMatch_simple : ∀ {glob}, IsSimple glob →
    ∀ bytes, isMatch glob bytes = Glob.test globPiece glob bytes

/-- A set of globs, by their texts. -/
structure GlobSet where
  globs : List Text
  deriving Repr, DecidableEq

variable (library : GlobLibrary) {set : GlobSet}

/-- `GlobSet::is_match`. -/
def GlobSet.isMatch (set : GlobSet) (host : Text) : Bool :=
  set.globs.any (library.isMatch · (host.flatMap String.utf8EncodeChar))

/-- `GlobalWildcard`: whether the pattern `*` is taken. -/
inductive GlobalWildcard where
  | allow
  | reject
  deriving Repr, DecidableEq

/-- The error for a global wildcard that is not taken. -/
def unsupportedGlobalWildcard : String :=
  "unsupported global wildcard domain pattern \"*\"; use exact hosts or scoped wildcards like " ++
    "*.example.com or **.example.com"

/-- Adds the globs of one pattern that are not there yet. -/
def addCandidates (seen : List Text) : List Text → Except String (List Text)
  | [] => .ok seen
  | candidate :: rest =>
    if candidate ∈ seen then addCandidates seen rest
    else if library.builds candidate then addCandidates (seen ++ [candidate]) rest
    else .error ("invalid glob pattern: " ++ String.ofList candidate)

/-- The loop of `compile_globset_with_policy` over the patterns, with the globs seen
so far. -/
def compileFrom (globalWildcard : GlobalWildcard) (seen : List Text) :
    List Text → Except String GlobSet
  | [] => .ok ⟨seen⟩
  | pattern :: rest =>
    if globalWildcard = .reject ∧ isGlobalWildcardDomainPattern syn pattern then
      .error unsupportedGlobalWildcard
    else
      match addCandidates library seen (expandDomainPattern (normalizePattern syn pattern)) with
      | .error e => .error e
      | .ok seen => compileFrom globalWildcard seen rest

/-- `compile_globset_with_policy`. -/
def compileGlobsetWithPolicy (patterns : List Text) (globalWildcard : GlobalWildcard) :
    Except String GlobSet :=
  compileFrom syn library globalWildcard [] patterns

/-- `compile_allowlist_globset`. -/
def compileAllowlistGlobset (patterns : List Text) : Except String GlobSet :=
  compileGlobsetWithPolicy syn library patterns .allow

/-! ### Patterns for validation -/

/-- `parse_domain_for_constraints`: a domain with a wildcard or a scope is kept as it
is, any other goes through the host parser and is empty if that refuses it. -/
def parseDomainForConstraints (domain : Text) : Text :=
  let domain := (trimChars domain).rdropWhile (· == '.')
  let host :=
    if domain.head? = some '[' ∧ domain.getLast? = some ']' then domain.tail.dropLast else domain
  if domain = [] then []
  else if '*' ∈ host ∨ '?' ∈ host ∨ '%' ∈ host then domain
  else (syn.parseUrlHost host).getD []

/-- `normalize_domain`. -/
def normalizeDomain (domain : Text) : Text := toAsciiLowercase (domain.rdropWhile (· == '.'))

/-- `domain_eq`. -/
def domainEq (left right : Text) : Bool := normalizeDomain left = normalizeDomain right

/-- `is_subdomain_or_equal`. -/
def isSubdomainOrEqual (child parent : Text) : Bool :=
  normalizeDomain child = normalizeDomain parent ||
    ('.' :: normalizeDomain parent).isSuffixOf (normalizeDomain child)

/-- `is_strict_subdomain`. -/
def isStrictSubdomain (child parent : Text) : Bool :=
  normalizeDomain child ≠ normalizeDomain parent &&
    ('.' :: normalizeDomain parent).isSuffixOf (normalizeDomain child)

namespace DomainPattern

/-- `DomainPattern::parse_for_constraints`. -/
def parseForConstraints (input : Text) : DomainPattern :=
  let input := trimChars input
  if input = [] then .exact []
  else if ['*', '*', '.'].isPrefixOf input then
    .apexAndSubdomains (parseDomainForConstraints syn (input.drop 3))
  else if ['*', '.'].isPrefixOf input then
    .subdomainsOnly (parseDomainForConstraints syn (input.drop 2))
  else .exact (parseDomainForConstraints syn input)

/-- `DomainPattern::allows`: whether every host of the candidate is to be a host of
the pattern. -/
def allows : DomainPattern → DomainPattern → Bool
  | .exact domain, .exact candidate => domainEq candidate domain
  | .exact _, _ => false
  | .subdomainsOnly domain, .exact candidate => isStrictSubdomain candidate domain
  | .subdomainsOnly domain, .subdomainsOnly candidate => isSubdomainOrEqual candidate domain
  | .subdomainsOnly domain, .apexAndSubdomains candidate => isStrictSubdomain candidate domain
  | .apexAndSubdomains domain, .exact candidate => isSubdomainOrEqual candidate domain
  | .apexAndSubdomains domain, .subdomainsOnly candidate => isSubdomainOrEqual candidate domain
  | .apexAndSubdomains domain, .apexAndSubdomains candidate => isSubdomainOrEqual candidate domain

end DomainPattern

/-! ### What a compiled set matches -/

theorem mem_addCandidates {seen more globs : List Text}
    (h : addCandidates library seen more = .ok globs) (g : Text) :
    g ∈ globs ↔ g ∈ seen ∨ g ∈ more := by
  induction more generalizing seen with
  | nil =>
    obtain rfl := Except.ok.inj h
    simp
  | cons candidate rest ih =>
    rw [addCandidates] at h
    split_ifs at h with hseen
    · rw [ih h, List.mem_cons]
      constructor
      · rintro (hg | hg)
        · exact .inl hg
        · exact .inr (.inr hg)
      · rintro (hg | rfl | hg)
        · exact .inl hg
        · exact .inl hseen
        · exact .inr hg
    · rw [ih h, List.mem_append, List.mem_singleton, List.mem_cons, or_assoc]

/-- The globs of a pattern, as enforced. -/
def enforcedGlobs (pattern : Text) : List Text :=
  expandDomainPattern (normalizePattern syn pattern)

theorem mem_compileFrom {globalWildcard : GlobalWildcard} {seen patterns : List Text}
    (h : compileFrom syn library globalWildcard seen patterns = .ok set) (g : Text) :
    g ∈ set.globs ↔ g ∈ seen ∨ ∃ p ∈ patterns, g ∈ enforcedGlobs syn p := by
  induction patterns generalizing seen with
  | nil =>
    obtain rfl := Except.ok.inj h
    simp
  | cons pattern rest ih =>
    rw [compileFrom] at h
    split_ifs at h
    cases hadd : addCandidates library seen (enforcedGlobs syn pattern) with
    | error e =>
      rw [enforcedGlobs] at hadd
      rw [hadd] at h
      cases h
    | ok globs =>
      have hmem := mem_addCandidates library hadd
      rw [enforcedGlobs] at hadd
      rw [hadd] at h
      rw [ih h, hmem, or_assoc]
      simp

/-- A pattern is enforced on a host. -/
def Enforced (pattern host : Text) : Prop :=
  ∃ g ∈ enforcedGlobs syn pattern,
    library.isMatch g (host.flatMap String.utf8EncodeChar) = true

theorem isMatch_of_compile {patterns : List Text}
    (h : compileAllowlistGlobset syn library patterns = .ok set) (host : Text) :
    set.isMatch library host = true ↔ ∃ p ∈ patterns, Enforced syn library p host := by
  simp only [GlobSet.isMatch, List.any_eq_true, mem_compileFrom syn library h, List.not_mem_nil,
    false_or]
  constructor
  · rintro ⟨g, ⟨p, hp, hg⟩, h⟩
    exact ⟨p, hp, g, hg, h⟩
  · rintro ⟨p, hp, g, hg, h⟩
    exact ⟨g, ⟨p, hp, hg⟩, h⟩

end Rivloom.NetworkProxy
