import Rivloom.ExecPolicy.Requirements
import Rivloom.Sandbox.FileSystemPolicy

/-!
# Approval of commands

Before a command runs, the exec policy says whether it may: at once, after the user has
approved it, or not at all – and when at once, whether *outside the sandbox*. The command
is parsed into segments, each segment is matched against the policy, and a segment that no
rule matches gets the decision of a heuristic.

The decision is a maximum over all segments; the bypass flag is computed apart from it, by
asking of each segment whether some rule allows it. That the two agree is
`Rivloom.ExecPolicy.bypass_only_by_allow_rules`: a bypass means that every segment is matched
by rules and that all of them allow.

For some models the rules that allow are set aside
(`Rivloom.ExecPolicy.ExecPolicyManager.currentForPrefixRules`). Setting them aside can only
make a decision stricter (`Rivloom.ExecPolicy.Policy.Strips`): where the strictest match was
not `allow` it stays, and where it was, anything is as strict.

The model is the build for Unix. How a shell command is split, what counts as dangerous and
how tokens are quoted is taken from other crates and left open (`Rivloom.ExecPolicy.Shell`).
-/

namespace Rivloom.ExecPolicy

open Sandbox (FileSystemSandboxEntry FileSystemSandboxKind FileSystemSandboxPolicy)

/-! ### What a command is judged by -/

inductive DangerousCommandMatch where
  | forcedRm | other
  deriving DecidableEq

/-- **What is known of commands**: the plain commands of a shell script, the dangerous ones,
and tokens quoted as one line. -/
structure Shell where
  parseShellLcPlainCommands : List String → Option (List (List String))
  dangerousCommandMatch : List String → Option DangerousCommandMatch
  tryJoin : List String → Option String

structure GranularApprovalConfig where
  sandboxApproval : Bool
  rules : Bool

inductive AskForApproval where
  | unlessTrusted
  | onRequest
  | granular (config : GranularApprovalConfig)
  | never

inductive ManagedFileSystemPermissions (Uri : Type) where
  | restricted (entries : List (FileSystemSandboxEntry Uri))
  | unrestricted

inductive PermissionProfile (Uri : Type) where
  | managed (fileSystem : ManagedFileSystemPermissions Uri)
  | disabled
  | external

def PermissionProfile.fileSystemSandboxPolicy {Uri : Type} :
    PermissionProfile Uri → FileSystemSandboxPolicy Uri
  | .managed (.restricted entries) => ⟨.restricted, entries⟩
  | .managed .unrestricted => ⟨.unrestricted, []⟩
  | .disabled => ⟨.unrestricted, []⟩
  | .external => ⟨.externalSandbox, []⟩

inductive SandboxPermissions where
  | useDefault | requireEscalated | withAdditionalPermissions
  deriving DecidableEq

def SandboxPermissions.requestsSandboxOverride (permissions : SandboxPermissions) : Bool :=
  permissions != .useDefault

/-- Whether the rules that allow are honoured. -/
inductive AllowPrefixRules where
  | honor | ignoreForCyberModel
  deriving DecidableEq

structure ExecApprovalRequest (Path Uri : Type) where
  command : List String
  approvalPolicy : AskForApproval
  permissionProfile : PermissionProfile Uri
  environmentPolicy : Option (Policy Path)
  sandboxPermissions : SandboxPermissions
  prefixRule : Option (List String)
  allowPrefixRules : AllowPrefixRules

/-- What has to happen before a command runs. An amendment is the prefix of a rule that would
spare the question next time. -/
inductive ExecApprovalRequirement where
  | skip (bypassSandbox : Bool) (proposedExecpolicyAmendment : Option (List String))
  | needsApproval (reason : Option String) (proposedExecpolicyAmendment : Option (List String))
  | forbidden (reason : String)

structure ExecPolicyManager (Path : Type) where
  current : Policy Path

def ExecPolicyManager.currentForPrefixRules {Path : Type} (manager : ExecPolicyManager Path)
    (allowPrefixRules : AllowPrefixRules) : Policy Path :=
  match allowPrefixRules with
  | .honor => manager.current
  | .ignoreForCyberModel =>
    { manager.current with
      rulesByProgram :=
        manager.current.rulesByProgram.filter fun _ rule => decide (rule.decision ≠ .allow) }

/-- **The policy a command is judged by**: the current rules, or those of them that do not
allow, with the rules of the environment laid over. -/
def ExecPolicyManager.currentForEnvironment {Path : Type} (manager : ExecPolicyManager Path)
    (environmentPolicy : Option (Policy Path)) (allowPrefixRules : AllowPrefixRules) :
    Policy Path :=
  match environmentPolicy with
  | some environmentPolicy =>
    (manager.currentForPrefixRules allowPrefixRules).mergeOverlay environmentPolicy
  | none => manager.currentForPrefixRules allowPrefixRules

theorem ExecPolicyManager.currentForEnvironment_honor {Path : Type}
    (manager : ExecPolicyManager Path) (environmentPolicy : Option (Policy Path)) :
    manager.currentForEnvironment environmentPolicy .honor =
      environmentPolicy.elim manager.current manager.current.mergeOverlay := by
  cases environmentPolicy with
  | none => rfl
  | some overlay => rfl

/-! ### Segments that no rule matches -/

/-- The segments of a command: the plain commands of a shell script, or the command itself. -/
def commandsForExecPolicy (shell : Shell) (command : List String) : List (List String) :=
  match shell.parseShellLcPlainCommands command with
  | some (first :: rest) => first :: rest
  | _ => [command]

/-- **The heuristic.** A dangerous command is never allowed; another one is allowed where the
sandbox, or the user's word, protects against it. -/
def renderDecisionForUnmatchedCommand {Uri : Type} (shell : Shell) (command : List String)
    (approvalPolicy : AskForApproval) (permissionProfile : PermissionProfile Uri)
    (sandboxPermissions : SandboxPermissions) : Decision :=
  if (shell.dangerousCommandMatch command).isSome then
    match approvalPolicy with
    | .never => .forbidden
    | .onRequest | .unlessTrusted | .granular _ => .prompt
  else
    match approvalPolicy with
    | .never => .allow
    | .unlessTrusted => .prompt
    | .onRequest | .granular _ =>
      match permissionProfile.fileSystemSandboxPolicy.kind with
      | .unrestricted | .externalSandbox => .allow
      | .restricted => if sandboxPermissions.requestsSandboxOverride then .prompt else .allow

/-! ### Reasons -/

def promptConflictReason : String :=
  "approval required by policy, but AskForApproval is set to Never"

def rejectSandboxApprovalReason : String :=
  "approval required by policy, but AskForApproval::Granular.sandbox_approval is false"

def rejectRulesApprovalReason : String :=
  "approval required by policy rule, but AskForApproval::Granular.rules is false"

def promptIsRejectedByPolicy (approvalPolicy : AskForApproval) (promptIsRule : Bool) :
    Option String :=
  match approvalPolicy with
  | .never => some promptConflictReason
  | .onRequest | .unlessTrusted => none
  | .granular config =>
    if promptIsRule then if !config.rules then some rejectRulesApprovalReason else none
    else if !config.sandboxApproval then some rejectSandboxApprovalReason
    else none

def renderShlexCommand (shell : Shell) (args : List String) : String :=
  (shell.tryJoin args).getD (" ".intercalate args)

def dangerousCommandRejectionReason : DangerousCommandMatch → String
  | .forcedRm => "rm -f style commands are not permitted. Use a safer approach"
  | .other => "blocked by policy"

section Reasons

variable {Path : Type}

/-- The first dangerous segment among those the heuristic gave a decision to. -/
def dangerousCommandMatchForHeuristics (shell : Shell) (evaluation : Evaluation Path)
    (decision : Decision) : Option DangerousCommandMatch :=
  evaluation.matchedRules.findSome? fun ruleMatch =>
    match ruleMatch with
    | .heuristicsRuleMatch command matchedDecision =>
      if matchedDecision = decision then shell.dangerousCommandMatch command else none
    | .prefixRuleMatch .. => none

/-- The prefix and the justification of a rule with a decision. -/
def ruleWithDecision (decision : Decision) :
    RuleMatch Path → Option (List String × Option String)
  | .prefixRuleMatch matchedPrefix matchedDecision _ justification =>
    if matchedDecision = decision then some (matchedPrefix, justification) else none
  | .heuristicsRuleMatch .. => none

/-- The rule with a decision that matched the longest prefix: the last one of them. -/
def mostSpecificRule (decision : Decision) (evaluation : Evaluation Path) :
    Option (List String × Option String) :=
  (evaluation.matchedRules.filterMap (ruleWithDecision decision)).reverse.argmax (·.1.length)

def derivePromptReason (shell : Shell) (commandArgs : List String) (evaluation : Evaluation Path) :
    Option String :=
  let command := renderShlexCommand shell commandArgs
  match mostSpecificRule .prompt evaluation with
  | some (_, some justification) =>
    some ("`" ++ command ++ "` requires approval: " ++ justification)
  | some (_, none) => some ("`" ++ command ++ "` requires approval by policy")
  | none => none

def deriveForbiddenReason (shell : Shell) (commandArgs : List String)
    (evaluation : Evaluation Path) (dangerous : Option DangerousCommandMatch) : String :=
  let command := renderShlexCommand shell commandArgs
  match mostSpecificRule .forbidden evaluation with
  | some (_, some justification) => "`" ++ command ++ "` rejected: " ++ justification
  | some (matchedPrefix, none) =>
    "`" ++ command ++ "` rejected: policy forbids commands starting with `" ++
      renderShlexCommand shell matchedPrefix ++ "`"
  | none =>
    match dangerous with
    | some dangerous => "`" ++ command ++ "` rejected: " ++
      dangerousCommandRejectionReason dangerous
    | none => "`" ++ command ++ "` rejected: blocked by policy"

def deriveRejectedPromptReason (fallbackReason : String) :
    Option DangerousCommandMatch → String
  | some .forcedRm => dangerousCommandRejectionReason .forcedRm
  | some .other | none => fallbackReason

end Reasons

/-! ### Amendments -/

/-- Prefixes that are too broad to be proposed as a rule. -/
def bannedPrefixSuggestions : List (List String) :=
  [["/bin/bash"], ["/bin/bash", "-c"], ["/bin/bash", "-lc"], ["/bin/sh"], ["/bin/sh", "-c"],
    ["/bin/sh", "-lc"], ["/bin/zsh"], ["/bin/zsh", "-c"], ["/bin/zsh", "-lc"], ["Rscript"],
    ["bash"], ["bash", "-c"], ["bash", "-lc"], ["bun"], ["bun", "-e"], ["bun", "run"], ["cmd"],
    ["cmd", "/c"], ["cmd", "/k"], ["cmd.exe"], ["cmd.exe", "/c"], ["cmd.exe", "/k"], ["dash"],
    ["dash", "-c"], ["deno"], ["deno", "eval"], ["env"], ["fish"], ["fish", "-c"], ["git"],
    ["julia"], ["julia", "-e"], ["ksh"], ["ksh", "-c"], ["lua"], ["lua", "-e"], ["node"],
    ["node", "-e"], ["nodejs"], ["nodejs", "-e"], ["npm", "run"], ["osascript"], ["perl"],
    ["perl", "-e"], ["php"], ["php", "-r"], ["pnpm", "run"], ["powershell"],
    ["powershell", "-Command"], ["powershell", "-EncodedCommand"], ["powershell", "-File"],
    ["powershell", "-c"], ["powershell.exe"], ["powershell.exe", "-Command"],
    ["powershell.exe", "-EncodedCommand"], ["powershell.exe", "-File"], ["powershell.exe", "-c"],
    ["pwsh"], ["pwsh", "-Command"], ["pwsh", "-EncodedCommand"], ["pwsh", "-File"],
    ["pwsh", "-c"], ["pwsh", "-e"], ["pwsh", "-ec"], ["pwsh", "-f"], ["py"], ["py", "-3"],
    ["pypy"], ["pypy3"], ["python"], ["python", "-"], ["python", "-c"], ["python3"],
    ["python3", "-"], ["python3", "-c"], ["pythonw"], ["pyw"], ["rm"], ["ruby"], ["ruby", "-e"],
    ["sh"], ["sh", "-c"], ["sh", "-lc"], ["sudo"], ["yarn", "run"], ["zsh"], ["zsh", "-c"],
    ["zsh", "-lc"]]

section Requirement

variable {Path : Type} [DecidableEq Path]

/-- The command that the heuristic gave a decision to, if it was this one. -/
def heuristicCommand (decision : Decision) : RuleMatch Path → Option (List String)
  | .heuristicsRuleMatch command matchedDecision =>
    if matchedDecision = decision then some command else none
  | .prefixRuleMatch .. => none

def tryDeriveExecpolicyAmendmentForPromptRules (matchedRules : List (RuleMatch Path)) :
    Option (List String) :=
  if matchedRules.any fun ruleMatch =>
      ruleMatch.isPolicyMatch && decide (ruleMatch.decision = .prompt) then none
  else matchedRules.findSome? (heuristicCommand .prompt)

def tryDeriveExecpolicyAmendmentForAllowRules (matchedRules : List (RuleMatch Path)) :
    Option (List String) :=
  if matchedRules.any RuleMatch.isPolicyMatch then none
  else matchedRules.findSome? (heuristicCommand .allow)

def prefixRuleWouldApproveAllCommands (host : Host Path) (execPolicy : Policy Path)
    (prefixRule : List String) (commands : List (List String))
    (execPolicyFallback : List String → Decision) (matchOptions : MatchOptions) : Bool :=
  match execPolicy.addPrefixRule prefixRule .allow with
  | none => false
  | some policyWithPrefixRule =>
    commands.all fun command =>
      (policyWithPrefixRule.checkWithOptions host command execPolicyFallback matchOptions).any
        fun evaluation => decide (evaluation.decision = .allow)

def deriveRequestedExecpolicyAmendmentFromPrefixRule (host : Host Path)
    (prefixRule : Option (List String)) (matchedRules : List (RuleMatch Path))
    (execPolicy : Policy Path) (commands : List (List String))
    (execPolicyFallback : List String → Decision) (matchOptions : MatchOptions) :
    Option (List String) :=
  match prefixRule with
  | none => none
  | some prefixRule =>
    if prefixRule.isEmpty then none
    else if bannedPrefixSuggestions.any (· == prefixRule) then none
    else if matchedRules.any RuleMatch.isPolicyMatch then none
    else if prefixRuleWouldApproveAllCommands host execPolicy prefixRule commands
        execPolicyFallback matchOptions then some prefixRule
    else none

/-! ### The requirement -/

variable {Uri : Type}

/-- The heuristic for the segments of a request. -/
def execPolicyFallback (shell : Shell) (request : ExecApprovalRequest Path Uri) :
    List String → Decision := fun command =>
  renderDecisionForUnmatchedCommand shell command request.approvalPolicy
    request.permissionProfile request.sandboxPermissions

/-- The evaluation of all segments of a request; it fails only if there are none. -/
def ExecPolicyManager.evaluate (shell : Shell) (host : Host Path)
    (manager : ExecPolicyManager Path) (request : ExecApprovalRequest Path Uri) :
    Option (Evaluation Path) :=
  (manager.currentForEnvironment request.environmentPolicy
    request.allowPrefixRules).checkMultipleWithOptions host
      (commandsForExecPolicy shell request.command) (execPolicyFallback shell request) resolving

/-- **Bypass the sandbox** only when every segment is explicitly allowed. -/
def bypassSandbox (host : Host Path) (execPolicy : Policy Path) (commands : List (List String)) :
    Bool :=
  commands.all fun command =>
    (execPolicy.matchesForCommandWithOptions host command none resolving).any fun ruleMatch =>
      ruleMatch.isPolicyMatch && decide (ruleMatch.decision = .allow)

/-- The requirement that follows from an evaluation. -/
def requirementOf (shell : Shell) (host : Host Path) (manager : ExecPolicyManager Path)
    (request : ExecApprovalRequest Path Uri) (evaluation : Evaluation Path) :
    ExecApprovalRequirement :=
  let commands := commandsForExecPolicy shell request.command
  let execPolicy :=
    manager.currentForEnvironment request.environmentPolicy request.allowPrefixRules
  let autoAmendmentAllowed := decide (request.allowPrefixRules = .honor)
  let requestedAmendment :=
    if autoAmendmentAllowed then
      deriveRequestedExecpolicyAmendmentFromPrefixRule host request.prefixRule
        evaluation.matchedRules execPolicy commands (execPolicyFallback shell request) resolving
    else none
  match evaluation.decision with
  | .forbidden =>
    .forbidden (deriveForbiddenReason shell request.command evaluation
      (dangerousCommandMatchForHeuristics shell evaluation .forbidden))
  | .prompt =>
    let promptIsRule := evaluation.matchedRules.any fun ruleMatch =>
      ruleMatch.isPolicyMatch && decide (ruleMatch.decision = .prompt)
    match promptIsRejectedByPolicy request.approvalPolicy promptIsRule with
    | some reason =>
      if promptIsRule then .forbidden reason
      else
        .forbidden (deriveRejectedPromptReason reason
          (dangerousCommandMatchForHeuristics shell evaluation .prompt))
    | none =>
      .needsApproval (derivePromptReason shell request.command evaluation)
        (requestedAmendment.or
          (if autoAmendmentAllowed then
            tryDeriveExecpolicyAmendmentForPromptRules evaluation.matchedRules
          else none))
  | .allow =>
    .skip (bypassSandbox host execPolicy commands)
      (if autoAmendmentAllowed then
        tryDeriveExecpolicyAmendmentForAllowRules evaluation.matchedRules
      else none)

/-- **The approval requirement of a command.** -/
def ExecPolicyManager.createExecApprovalRequirementForCommand (shell : Shell) (host : Host Path)
    (manager : ExecPolicyManager Path) (request : ExecApprovalRequest Path Uri) :
    Option ExecApprovalRequirement :=
  (manager.evaluate shell host request).map (requirementOf shell host manager request)

/-! ### Setting aside the rules that allow -/

/-- **One policy without the allowing rules of another**: at each program the rules that do not
allow, and the same table of host executables. -/
structure Policy.Strips (stripped policy : Policy Path) : Prop where
  rules : ∀ program, stripped.rulesByProgram.getVec program =
    (policy.rulesByProgram.getVec program).filter fun rule => decide (rule.decision ≠ .allow)
  hostExecutables : stripped.hostExecutablesByName = policy.hostExecutablesByName

variable {host : Host Path} {policy stripped : Policy Path}

omit [DecidableEq Path] in
/-- Matching and setting aside commute: a match has the decision of its rule. -/
theorem filterMap_match?_filter (rules : List PrefixRule) (command : List String) :
    ((rules.filter fun rule => decide (rule.decision ≠ .allow)).filterMap fun rule =>
      (rule.match? command : Option (RuleMatch Path))) =
    (rules.filterMap fun rule => rule.match? command).filter fun found =>
      decide (found.decision ≠ .allow) := by
  induction rules with
  | nil => rfl
  | cons rule rest ih =>
    simp only [ne_eq, decide_not] at ih ⊢
    cases hmatch : (rule.match? command : Option (RuleMatch Path)) with
    | none => by_cases hallow : rule.decision = .allow <;> simp [hmatch, hallow, ih]
    | some found =>
      have hdecision := (PrefixRule.decision_of_match? hmatch).1
      by_cases hallow : rule.decision = .allow <;> simp [hmatch, hallow, hdecision, ih]

omit [DecidableEq Path] in
theorem Policy.Strips.matchExactRules (h : stripped.Strips policy) (command : List String) :
    stripped.matchExactRules command =
      (policy.matchExactRules command).filter fun found => decide (found.decision ≠ .allow) := by
  unfold Policy.matchExactRules
  split
  · rfl
  · rw [h.rules, filterMap_match?_filter]

theorem Policy.Strips.matchHostExecutableRules (h : stripped.Strips policy)
    (command : List String) :
    stripped.matchHostExecutableRules host command =
      (policy.matchHostExecutableRules host command).filter fun found =>
        decide (found.decision ≠ .allow) := by
  unfold Policy.matchHostExecutableRules
  split
  · rfl
  · split
    · rfl
    · split
      · rfl
      · next basename _ =>
        have hadmits (program : Path) : stripped.admitsProgram basename program =
            policy.admitsProgram basename program := by
          rw [Policy.admitsProgram, h.hostExecutables, ← Policy.admitsProgram]
        rw [hadmits]
        split
        · rfl
        · rw [h.rules, filterMap_match?_filter, List.filter_map]
          congr 2
          funext found
          simp

/-- **Setting aside can only make stricter**: every match of the whole policy has one of the
stripped policy that is at least as strict. -/
theorem Policy.Strips.exists_stricter (h : stripped.Strips policy) {command : List String}
    {fallback : List String → Decision} {found : RuleMatch Path}
    (hfound : found ∈
      policy.matchesForCommandWithOptions host command (some fallback) resolving) :
    ∃ stricter ∈ stripped.matchesForCommandWithOptions host command (some fallback) resolving,
      found.decision ≤ stricter.decision := by
  have hsome : ∃ any, any ∈
      stripped.matchesForCommandWithOptions host command (some fallback) resolving :=
    List.exists_mem_of_ne_nil _ Policy.matchesForCommandWithOptions_ne_nil
  have hexact := h.matchExactRules command
  by_cases hallow : found.decision = .allow
  · obtain ⟨any, hany⟩ := hsome
    exact ⟨any, hany, hallow ▸ Decision.allow_le _⟩
  · -- a match that does not allow is a match of the stripped policy, in the same stage
    refine ⟨found, ?_, le_refl _⟩
    rw [Policy.matchesForCommandWithOptions_some] at hfound ⊢
    by_cases hnone : policy.matchExactRules command = []
    · rw [hnone, List.filter_nil] at hexact
      rw [matchingRules_of_not_exact hnone] at hfound
      rw [matchingRules_of_not_exact hexact, h.matchHostExecutableRules]
      split at hfound
      · next hempty =>
        rw [hempty, List.filter_nil, if_pos rfl]
        exact hfound
      · have hkept : found ∈ (policy.matchHostExecutableRules host command).filter
            fun found => decide (found.decision ≠ .allow) :=
          List.mem_filter.mpr ⟨hfound, by simpa using hallow⟩
        rw [if_neg (List.ne_nil_of_mem hkept)]
        exact hkept
    · rw [matchingRules_of_exact hnone, if_neg hnone] at hfound
      have hkept : found ∈ stripped.matchExactRules command :=
        hexact ▸ List.mem_filter.mpr ⟨hfound, by simpa using hallow⟩
      rw [matchingRules_of_exact (List.ne_nil_of_mem hkept), if_neg (List.ne_nil_of_mem hkept)]
      exact hkept

omit [DecidableEq Path] in
/-- The policy for models that do not honour allowing rules is the other one without them,
as the environment lays none over it. -/
theorem strips_currentForEnvironment (manager : ExecPolicyManager Path)
    {environmentPolicy : Option (Policy Path)}
    (henvironment : ∀ policy, environmentPolicy = some policy → policy.Managed) :
    (manager.currentForEnvironment environmentPolicy .ignoreForCyberModel).Strips
      (manager.currentForEnvironment environmentPolicy .honor) := by
  cases environmentPolicy with
  | none => exact ⟨fun program => MultiMap.getVec_filter _ _ _, rfl⟩
  | some overlay =>
    have hmanaged := henvironment overlay rfl
    refine ⟨fun program => ?_, rfl⟩
    have hkept : (overlay.rulesByProgram.getVec program).filter
        (fun rule => decide (rule.decision ≠ .allow)) = overlay.rulesByProgram.getVec program := by
      refine List.filter_eq_self.mpr ?_
      intro rule hrule
      simpa using hmanaged.decision_ne program rule (MultiMap.mem_getVec.mp hrule)
    simp only [ExecPolicyManager.currentForEnvironment, ExecPolicyManager.currentForPrefixRules,
      Policy.mergeOverlay, MultiMap.getVec_extend, List.filter_append, MultiMap.getVec_filter,
      hkept]

/-! ### Bypass and decision -/

theorem commandsForExecPolicy_ne_nil (shell : Shell) (command : List String) :
    commandsForExecPolicy shell command ≠ [] := by
  unfold commandsForExecPolicy
  split <;> exact List.cons_ne_nil _ _

/-- A request is always evaluated: there is a segment, and every segment has a match. -/
theorem exists_evaluate (shell : Shell) (host : Host Path) (manager : ExecPolicyManager Path)
    (request : ExecApprovalRequest Path Uri) :
    ∃ evaluation, manager.evaluate shell host request = some evaluation := by
  refine Evaluation.exists_fromMatches ?_
  obtain ⟨segment, hsegment⟩ :=
    List.exists_mem_of_ne_nil _ (commandsForExecPolicy_ne_nil shell request.command)
  intro hnil
  exact Policy.matchesForCommandWithOptions_ne_nil
    (List.flatMap_eq_nil_iff.mp hnil segment hsegment)

/-- A bypass comes with the decision to allow, and with an allowing rule for every segment. -/
theorem bypass_cases {shell : Shell} {manager : ExecPolicyManager Path}
    {request : ExecApprovalRequest Path Uri} {proposed : Option (List String)}
    (h : manager.createExecApprovalRequirementForCommand shell host request =
      some (.skip true proposed)) :
    (∃ evaluation, manager.evaluate shell host request = some evaluation ∧
      evaluation.decision = .allow) ∧
      bypassSandbox host
        (manager.currentForEnvironment request.environmentPolicy request.allowPrefixRules)
        (commandsForExecPolicy shell request.command) = true := by
  obtain ⟨evaluation, hevaluation, hrequirement⟩ := Option.map_eq_some_iff.mp h
  unfold requirementOf at hrequirement
  dsimp only at hrequirement
  cases hdecision : evaluation.decision with
  | forbidden =>
    rw [hdecision] at hrequirement
    cases hrequirement
  | prompt =>
    rw [hdecision] at hrequirement
    dsimp only at hrequirement
    split at hrequirement
    · split at hrequirement <;> cases hrequirement
    · cases hrequirement
  | allow =>
    rw [hdecision] at hrequirement
    injection hrequirement with hbypass
    exact ⟨⟨evaluation, hevaluation, hdecision⟩, hbypass⟩

theorem mem_of_bypass {execPolicy : Policy Path} {commands : List (List String)}
    (h : bypassSandbox host execPolicy commands = true) {segment : List String}
    (hsegment : segment ∈ commands) :
    ∃ found ∈ execPolicy.matchesForCommandWithOptions host segment none resolving,
      found.decision = .allow := by
  obtain ⟨found, hfound, hallow⟩ := List.any_eq_true.mp (List.all_eq_true.mp h segment hsegment)
  simp only [Bool.and_eq_true, decide_eq_true_eq] at hallow
  exact ⟨found, hfound, hallow.2⟩

/-- **The sandbox is bypassed only by explicit allow rules.** With the allowing rules honoured, a
bypass means that every segment is matched by rules of the policy and that all rules that
match it allow. With the allowing rules set aside there is no bypass, and the decision is at
least as strict as with them. -/
theorem bypass_only_by_allow_rules (shell : Shell) (host : Host Path)
    (manager : ExecPolicyManager Path) (request : ExecApprovalRequest Path Uri)
    (henvironment : ∀ policy, request.environmentPolicy = some policy → policy.Managed) :
    (∀ proposed,
      manager.createExecApprovalRequirementForCommand shell host
          { request with allowPrefixRules := .honor } = some (.skip true proposed) →
        ∀ segment ∈ commandsForExecPolicy shell request.command,
          let found :=
            (request.environmentPolicy.elim manager.current
              manager.current.mergeOverlay).matchesForCommandWithOptions host segment none resolving
          found ≠ [] ∧ ∀ ruleMatch ∈ found,
            ruleMatch.isPolicyMatch = true ∧ ruleMatch.decision = .allow) ∧
    (∀ proposed,
      manager.createExecApprovalRequirementForCommand shell host
        { request with allowPrefixRules := .ignoreForCyberModel } ≠ some (.skip true proposed)) ∧
    ∃ honored ignored,
      manager.evaluate shell host { request with allowPrefixRules := .honor } = some honored ∧
      manager.evaluate shell host { request with allowPrefixRules := .ignoreForCyberModel } =
        some ignored ∧
      honored.decision ≤ ignored.decision := by
  have hstrips := strips_currentForEnvironment manager henvironment
  refine ⟨?_, ?_, ?_⟩
  · intro proposed hskip segment hsegment
    rw [← ExecPolicyManager.currentForEnvironment_honor]
    obtain ⟨⟨evaluation, hevaluation, hallow⟩, hbypass⟩ := bypass_cases hskip
    obtain ⟨found, hfound, -⟩ := mem_of_bypass hbypass hsegment
    refine ⟨List.ne_nil_of_mem hfound, ?_⟩
    intro ruleMatch hmatch
    rw [Policy.matchesForCommandWithOptions_none] at hmatch
    refine ⟨(Policy.exists_rule_of_mem_matchingRules hmatch).1, ?_⟩
    -- the match is one of those whose maximum is `allow`
    have hbound := (Evaluation.fromMatches_eq_some.mp hevaluation).2.2 ruleMatch
      (List.mem_flatMap.mpr ⟨segment, hsegment, by
        rw [Policy.matchesForCommandWithOptions_some, if_neg (List.ne_nil_of_mem hmatch)]
        exact hmatch⟩)
    rw [hallow] at hbound
    exact le_antisymm hbound (Decision.allow_le _)
  · intro proposed hskip
    obtain ⟨-, hbypass⟩ := bypass_cases hskip
    obtain ⟨segment, hsegment⟩ :=
      List.exists_mem_of_ne_nil _ (commandsForExecPolicy_ne_nil shell request.command)
    obtain ⟨found, hfound, hallow⟩ := mem_of_bypass hbypass hsegment
    rw [Policy.matchesForCommandWithOptions_none] at hfound
    obtain ⟨-, program, rule, hrule, hdecision⟩ := Policy.exists_rule_of_mem_matchingRules hfound
    -- every rule left in the policy is one that does not allow
    have hleft := MultiMap.mem_getVec.mpr hrule
    rw [hstrips.rules] at hleft
    have := (List.mem_filter.mp hleft).2
    rw [← hdecision, hallow] at this
    simp at this
  · obtain ⟨honored, hhonored⟩ :=
      exists_evaluate shell host manager { request with allowPrefixRules := .honor }
    obtain ⟨ignored, hignored⟩ :=
      exists_evaluate shell host manager { request with allowPrefixRules := .ignoreForCyberModel }
    refine ⟨honored, ignored, hhonored, hignored, ?_⟩
    obtain ⟨-, ⟨found, hfound, hdecision⟩, -⟩ := Evaluation.fromMatches_eq_some.mp hhonored
    obtain ⟨segment, hsegment, hmatch⟩ := List.mem_flatMap.mp hfound
    obtain ⟨stricter, hstricter, hle⟩ := hstrips.exists_stricter hmatch
    have hbound := (Evaluation.fromMatches_eq_some.mp hignored).2.2 stricter
      (List.mem_flatMap.mpr ⟨segment, hsegment, hstricter⟩)
    rw [← hdecision]
    exact hle.trans hbound

end Requirement

/-- A shell that splits nothing and fears nothing. -/
def plainShell : Shell := ⟨fun _ => none, fun _ => none, fun _ => none⟩

/-- A user who allows `ls`. -/
def allowLs : ExecPolicyManager AbsolutePathBuf :=
  ⟨⟨⟨[("ls", ⟨⟨"ls", []⟩, .allow, none⟩)]⟩, [], ∅⟩⟩

/-- `ls`, where the environment forbids `rm`. -/
def lsRequest : ExecApprovalRequest AbsolutePathBuf AbsolutePathBuf :=
  ⟨["ls"], .never, .disabled, some forbidRmPolicy, .useDefault, none, .honor⟩

/-- The command bypasses the sandbox, by the rule that allows it. -/
theorem bypass_only_by_allow_rules_ls :
    allowLs.createExecApprovalRequirementForCommand plainShell plainHost lsRequest =
        some (.skip true none) ∧
      ∀ ruleMatch ∈
        (allowLs.current.mergeOverlay forbidRmPolicy).matchesForCommandWithOptions plainHost ["ls"]
          none resolving,
        ruleMatch.isPolicyMatch = true ∧ ruleMatch.decision = .allow :=
  ⟨rfl, ((bypass_only_by_allow_rules plainShell plainHost allowLs lsRequest (by
    rintro policy ⟨⟩
    exact toPolicy_managed forbidRm_toPolicy)).1 none rfl ["ls"] (by decide)).2⟩

end Rivloom.ExecPolicy
