import Mathlib.Data.Finset.Dedup
import Rivloom.NetworkProxy.DomainPattern

/-!
# Proxy configurations and managed constraints

A configuration of the proxy lists domains with a permission each, and an
administrator may manage it by constraints. This file is a model of the
configuration (`Rivloom.NetworkProxy.NetworkProxyConfig`), of the constraints
(`Rivloom.NetworkProxy.NetworkProxyConstraints`) and of the check of one against
the other, `Rivloom.NetworkProxy.validatePolicyAgainstConstraints`, with every
field it reads and every error it reports, in the order of its checks.

The list of allowed domains is checked in one of three ways, by
`allowlist_expansion_enabled`: if expansion is enabled the managed entries have to
be there; if it is disabled the entries have to be the managed ones; and if nothing
is said about it every entry has to be allowed by a managed one, as
`Rivloom.NetworkProxy.DomainPattern.allows` compares them.
-/

namespace Rivloom.NetworkProxy

variable {fieldName allowed : String}

/-! ### Configurations -/

/-- `NetworkDomainPermission`. -/
inductive NetworkDomainPermission where
  | none
  | allow
  | deny
  deriving Repr, DecidableEq

/-- The order of the variants: a stronger permission wins over a weaker one. -/
def NetworkDomainPermission.rank : NetworkDomainPermission → ℕ
  | .none => 0
  | .allow => 1
  | .deny => 2

/-- `NetworkDomainPermissionEntry`. -/
structure NetworkDomainPermissionEntry where
  pattern : Text
  permission : NetworkDomainPermission
  deriving Repr, DecidableEq

/-- Enters one entry: a pattern that is there takes the stronger permission, a new
one goes to the end. -/
def enterPermission (entry : NetworkDomainPermissionEntry) :
    List NetworkDomainPermissionEntry → List NetworkDomainPermissionEntry
  | [] => [entry]
  | first :: rest =>
    if first.pattern = entry.pattern then
      (if first.permission.rank < entry.permission.rank then entry else first) :: rest
    else first :: enterPermission entry rest

/-- `NetworkDomainPermissions::effective_entries`: one entry for each pattern, in the
order of their first occurrences. -/
def effectiveEntries (entries : List NetworkDomainPermissionEntry) :
    List NetworkDomainPermissionEntry :=
  entries.foldl (fun effective entry => enterPermission entry effective) []

/-- `NetworkUnixSocketPermission`. -/
inductive NetworkUnixSocketPermission where
  | allow
  | deny
  deriving Repr, DecidableEq

/-- `NetworkMode`. -/
inductive NetworkMode where
  | limited
  | full
  deriving Repr, DecidableEq

/-- `network_mode_rank`. -/
def networkModeRank : NetworkMode → ℕ
  | .limited => 0
  | .full => 1

/-- `NetworkProxyConfig`, the fields that the check against constraints reads. -/
structure NetworkProxyConfig where
  enabled : Bool
  allowUpstreamProxy : Bool
  dangerouslyAllowNonLoopbackProxy : Bool
  dangerouslyAllowAllUnixSockets : Bool
  mode : NetworkMode
  domains : Option (List NetworkDomainPermissionEntry)
  /-- The entries of the map, in the order of its keys. -/
  unixSockets : Option (List (Text × NetworkUnixSocketPermission))
  allowLocalBinding : Bool
  /-- What `validate_mitm_hook_config` has to say against the hooks. -/
  mitmHookFault : Option Text
  deriving Repr, DecidableEq

namespace NetworkProxyConfig

/-- `domain_entries`. -/
def domainEntries (config : NetworkProxyConfig) (permission : NetworkDomainPermission) :
    Option (List Text) :=
  (config.domains.map fun entries =>
    ((effectiveEntries entries).filter (·.permission = permission)).map (·.pattern)).filter
      (!·.isEmpty)

/-- `allowed_domains`. -/
def allowedDomains (config : NetworkProxyConfig) : Option (List Text) :=
  config.domainEntries .allow

/-- `denied_domains`. -/
def deniedDomains (config : NetworkProxyConfig) : Option (List Text) :=
  config.domainEntries .deny

/-- `allow_unix_sockets`. -/
def allowUnixSockets (config : NetworkProxyConfig) : List Text :=
  (config.unixSockets.map fun entries => (entries.filter (·.2 = .allow)).map (·.1)).getD []

end NetworkProxyConfig

/-! ### Constraints -/

/-- `NetworkProxyConstraints`. -/
structure NetworkProxyConstraints where
  enabled : Option Bool
  mode : Option NetworkMode
  allowUpstreamProxy : Option Bool
  dangerouslyAllowNonLoopbackProxy : Option Bool
  dangerouslyAllowAllUnixSockets : Option Bool
  allowedDomains : Option (List Text)
  allowlistExpansionEnabled : Option Bool
  deniedDomains : Option (List Text)
  denylistExpansionEnabled : Option Bool
  allowUnixSockets : Option (List Text)
  allowLocalBinding : Option Bool
  deriving Repr, DecidableEq

/-- A value as an error shows it. -/
inductive Shown where
  /-- A fixed text. -/
  | words (text : String)
  /-- A text of the configuration. -/
  | text (text : Text)
  /-- A list of texts, printed for debugging. -/
  | texts (texts : List Text)
  /-- A mode, printed for debugging. -/
  | mode (mode : NetworkMode)
  /-- A mode and `or more restrictive` behind it. -/
  | atMostMode (mode : NetworkMode)
  deriving Repr, DecidableEq

/-- `NetworkProxyConstraintError::InvalidValue`. -/
structure NetworkProxyConstraintError where
  fieldName : String
  candidate : Shown
  allowed : Shown
  deriving Repr, DecidableEq

variable (syn : HostSyntax)

/-- `validate_non_global_wildcard_domain_patterns`. -/
def validateNonGlobalWildcardDomainPatterns (fieldName : String) (patterns : List Text) :
    Except NetworkProxyConstraintError Unit :=
  match patterns.find? (isGlobalWildcardDomainPattern syn) with
  | some pattern =>
    .error ⟨fieldName, .text (trimChars pattern),
      .words "exact hosts or scoped wildcards like *.example.com or **.example.com"⟩
  | none => .ok ()

/-- `invalid_mitm_hook_configuration`. -/
def invalidMitmHookConfiguration (fault : Text) : NetworkProxyConstraintError :=
  ⟨"network.mitm_hooks", .text fault, .words "valid MITM hook configuration"⟩

/-- The check of the hooks. -/
def validateMitmHookConfig (config : NetworkProxyConfig) :
    Except NetworkProxyConstraintError Unit :=
  match config.mitmHookFault with
  | some fault => .error (invalidMitmHookConfiguration fault)
  | none => .ok ()

/-- The check of a switch that the managed configuration may keep off. -/
def validateSwitch (fieldName : String) (candidate permitted : Bool) :
    Except NetworkProxyConstraintError Unit :=
  Except.failIf (candidate && !permitted)
    ⟨fieldName, .words "true", .words "false (disabled by managed config)"⟩

/-- The check of the mode. -/
def validateMode (candidate : NetworkMode) (maxMode : Option NetworkMode) :
    Except NetworkProxyConstraintError Unit :=
  match maxMode with
  | some maxMode =>
    Except.failIf (networkModeRank maxMode < networkModeRank candidate)
      ⟨"network.mode", .mode candidate, .atMostMode maxMode⟩
  | none => .ok ()

/-- The texts of a list in lowercase, as a set: each of them once. -/
def lowercased (entries : List Text) : List Text := (entries.map toAsciiLowercase).dedup

/-- The check that entries hold what is required of them, up to what is waived. -/
def validateRequired (fieldName missing : String) (candidate required waived : List Text) :
    Except NetworkProxyConstraintError Unit :=
  let absent := (lowercased required).filter fun entry =>
    entry ∉ lowercased candidate ∧ entry ∉ lowercased waived
  Except.failIf (!absent.isEmpty) ⟨fieldName, .words missing, .texts absent⟩

/-- The check that entries are the expected ones, as sets. -/
def validateExpected (fieldName allowed : String) (candidate expected : List Text) :
    Except NetworkProxyConstraintError Unit :=
  Except.failIf ((lowercased candidate).toFinset ≠ expected.toFinset)
    ⟨fieldName, .texts candidate, .words allowed⟩

/-- The check that every entry is permitted. -/
def validateEach (fieldName allowed : String) (permitted : Text → Bool) (candidate : List Text) :
    Except NetworkProxyConstraintError Unit :=
  let invalid := candidate.filter (!permitted ·)
  Except.failIf (!invalid.isEmpty) ⟨fieldName, .texts invalid, .words allowed⟩

/-- Whether some managed pattern allows the candidate, as both are compared. -/
def managedAllows (managed : List Text) (entry : Text) : Bool :=
  managed.any fun pattern =>
    (DomainPattern.parseForConstraints syn pattern).allows
      (DomainPattern.parseForConstraints syn entry)

/-- The check of the allowed domains against the managed ones. -/
def validateAllowedDomains (candidate denied managed : List Text) :
    Option Bool → Except NetworkProxyConstraintError Unit
  | some true =>
    validateRequired "network.allowed_domains" "missing managed allowed_domains entries"
      candidate managed denied
  | some false =>
    validateExpected "network.allowed_domains" "must match managed allowed_domains" candidate
      ((lowercased managed).filter (· ∉ lowercased denied))
  | none =>
    validateEach "network.allowed_domains" "subset of managed allowed_domains"
      (managedAllows syn managed) candidate

/-- The check of the denied domains against the managed ones. -/
def validateDeniedDomains (candidate managed : List Text) :
    Option Bool → Except NetworkProxyConstraintError Unit
  | some false =>
    validateExpected "network.denied_domains" "must match managed denied_domains" candidate
      (lowercased managed)
  | _ =>
    validateRequired "network.denied_domains" "missing managed denied_domains entries"
      candidate managed []

/-- The part of the check on a list that is managed only if the constraints hold one. -/
def whenManaged (managed : Option (List Text))
    (check : List Text → Except NetworkProxyConstraintError Unit) :
    Except NetworkProxyConstraintError Unit :=
  match managed with
  | some managed => check managed
  | none => .ok ()

/-- `validate_policy_against_constraints`. -/
def validatePolicyAgainstConstraints (config : NetworkProxyConfig)
    (constraints : NetworkProxyConstraints) : Except NetworkProxyConstraintError Unit := do
  let allowedDomains := config.allowedDomains.getD []
  let deniedDomains := config.deniedDomains.getD []
  validateMitmHookConfig config
  validateNonGlobalWildcardDomainPatterns syn "network.denied_domains" deniedDomains
  validateSwitch "network.enabled" config.enabled (constraints.enabled.getD true)
  validateMode config.mode constraints.mode
  validateSwitch "network.allow_upstream_proxy" config.allowUpstreamProxy
    (constraints.allowUpstreamProxy.getD true)
  validateSwitch "network.dangerously_allow_non_loopback_proxy"
    config.dangerouslyAllowNonLoopbackProxy
    (constraints.dangerouslyAllowNonLoopbackProxy.getD true)
  validateSwitch "network.dangerously_allow_all_unix_sockets"
    config.dangerouslyAllowAllUnixSockets
    (constraints.dangerouslyAllowAllUnixSockets.getD constraints.allowUnixSockets.isNone)
  validateSwitch "network.allow_local_binding" config.allowLocalBinding
    (constraints.allowLocalBinding.getD true)
  whenManaged constraints.allowedDomains fun managed => do
    validateNonGlobalWildcardDomainPatterns syn "network.allowed_domains" managed
    validateAllowedDomains syn allowedDomains deniedDomains managed
      constraints.allowlistExpansionEnabled
  whenManaged constraints.deniedDomains fun managed => do
    validateNonGlobalWildcardDomainPatterns syn "network.denied_domains" managed
    validateDeniedDomains deniedDomains managed constraints.denylistExpansionEnabled
  whenManaged constraints.allowUnixSockets fun managed =>
    validateEach "network.allow_unix_sockets" "subset of managed allow_unix_sockets"
      (toAsciiLowercase · ∈ lowercased managed) config.allowUnixSockets

/-! ### What an accepted configuration has passed -/

@[simp] theorem mem_lowercased (entries : List Text) (entry : Text) :
    entry ∈ lowercased entries ↔ ∃ e ∈ entries, toAsciiLowercase e = entry := by
  simp [lowercased]

theorem validateEach_eq_ok {permitted : Text → Bool} {candidate : List Text}
    (h : validateEach fieldName allowed permitted candidate = .ok ()) :
    ∀ entry ∈ candidate, permitted entry = true := by
  simpa [validateEach] using h

theorem validateExpected_eq_ok {candidate expected : List Text}
    (h : validateExpected fieldName allowed candidate expected = .ok ()) :
    ∀ entry, entry ∈ lowercased candidate ↔ entry ∈ expected := by
  intro entry
  have hsets : (lowercased candidate).toFinset = expected.toFinset := by
    simpa [validateExpected] using h
  rw [← List.mem_toFinset, hsets, List.mem_toFinset]

/-- An accepted configuration has passed the check of the allowed domains. -/
theorem validateAllowedDomains_of_accepted {config : NetworkProxyConfig}
    {constraints : NetworkProxyConstraints} {managed : List Text}
    (haccepted : validatePolicyAgainstConstraints syn config constraints = .ok ())
    (hmanaged : constraints.allowedDomains = some managed) :
    validateAllowedDomains syn (config.allowedDomains.getD []) (config.deniedDomains.getD [])
      managed constraints.allowlistExpansionEnabled = .ok () := by
  simp only [validatePolicyAgainstConstraints, Except.bind_unit_eq_ok, hmanaged, whenManaged]
    at haccepted
  obtain ⟨-, -, -, -, -, -, -, -, ⟨-, h⟩, -⟩ := haccepted
  exact h

/-! ### Allowed domains and nothing else -/

/-- A configuration with these allowed domains. -/
def allowing (patterns : List Text) : NetworkProxyConfig where
  enabled := true
  allowUpstreamProxy := true
  dangerouslyAllowNonLoopbackProxy := false
  dangerouslyAllowAllUnixSockets := false
  mode := .full
  domains := some (patterns.map (⟨·, .allow⟩))
  unixSockets := none
  allowLocalBinding := false
  mitmHookFault := none

/-- Constraints that manage the allowed domains and nothing else. -/
def managing (patterns : List Text) : NetworkProxyConstraints where
  enabled := none
  mode := none
  allowUpstreamProxy := none
  dangerouslyAllowNonLoopbackProxy := none
  dangerouslyAllowAllUnixSockets := none
  allowedDomains := some patterns
  allowlistExpansionEnabled := none
  deniedDomains := none
  denylistExpansionEnabled := none
  allowUnixSockets := none
  allowLocalBinding := none

end Rivloom.NetworkProxy
