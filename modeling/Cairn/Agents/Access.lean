import Cairn.Library.Json

/-!
Owns the access policies of agents: the policy that a record stands for, what it allows, and
`covers`, which decides whether work that was started under one policy continues under
another. `covers_order` is the main result.

Does not own: the grants of nodes, which placement follows, and the records that a policy
may name.
-/

set_option autoImplicit false

namespace Cairn.Agents

open Cairn.Library.Json

/-! ### Policies -/

/-- `MAIN_AGENT_ID`. -/
def mainAgentId : String := "00000000-0000-4000-8000-000000000001"

/-- `LOCAL_NODE_ID`. -/
def localNodeId : String := "00000000-0000-4000-8000-000000000002"

/-- What a policy is without settings. -/
def defaults : Value :=
  .object
    [("projects", .null), ("skills", .null), ("mcps", .null), ("mcpTools", .object []),
      ("github", .bool true), ("sandbox", .string "yolo"),
      ("nodes", .array [.string localNodeId])]

/-- The agent was restricted before permissions for MCP servers existed. -/
def legacyRestricted (agent value : Value) : Bool :=
  agent.get "id" ≠ .string mainAgentId && (agent.get "access").isObject &&
    ((agent.get "access").member "mcps").isNone &&
    (!(value.get "projects").isNull || !(value.get "skills").isNull ||
      value.get "github" ≠ .bool true || value.get "sandbox" ≠ .string "yolo")

/-- `policy`. -/
def policy (agent : Value) : Value :=
  let value := defaults.merge (agent.get "access")
  if legacyRestricted agent value then value.set "mcps" (.array []) else value

/-- `within`: a granted scope stays within the current one; null means everything. -/
def within (granted current : Value) : Bool :=
  if current.isNull then true
  else
    match granted.asArray, current.asArray with
    | some granted, some current => granted.all fun item => item ∈ current
    | _, _ => false

/-- `sandbox_rank`. -/
def sandboxRank (sandbox : Value) : Nat :=
  match sandbox.asString with
  | some "yolo" => 2
  | some "workspace-write" => 1
  | _ => 0

/-- `covers`, of two policies. -/
def policyCovers (current granted : Value) : Bool :=
  let scopes := ["projects", "skills", "mcps"].all fun key =>
    within (granted.get key) (current.get key)
  -- A server without a tool selection allows all of its enabled tools.
  let tools := ((current.get "mcpTools").asObject.getD []).all fun entry =>
    within ((granted.get "mcpTools").get entry.1) entry.2
  let github := current.get "github" = .bool true || granted.get "github" ≠ .bool true
  let sandbox := sandboxRank (current.get "sandbox") ≥ sandboxRank (granted.get "sandbox")
  scopes && tools && github && sandbox

/-- `covers`: the current agent still allows everything that the granted one allowed. -/
def covers (current granted : Value) : Bool := policyCovers (policy current) (policy granted)

/-- `allowed`. -/
def allowed (scope : Value) (id : String) : Bool :=
  scope.isNull || ((scope.asArray.map fun items => decide (.string id ∈ items)).getD false)

/-! ### What a policy allows -/

/-- The settings of an MCP server that a selection of tools reads. -/
structure McpServer where
  id : String
  enabledTools : Option (List String)

/-- `selected_tools`: the tools that an agent is given, `none` for all. -/
def selectedTools (server : McpServer) (selection : Value) : Option (List String) :=
  match selection.asArray with
  | none => server.enabledTools
  | some selected =>
      let enabled := fun name => (server.enabledTools.map fun tools => decide (name ∈ tools)).getD true
      some ((selected.filterMap Value.asString).filter enabled)

/-- The server gives the agent a tool. -/
def exposes (server : McpServer) (selection : Value) (tool : String) : Prop :=
  ∀ tools ∈ selectedTools server selection, tool ∈ tools

/-- What an agent may do. -/
inductive Permission where
  | project (id : String)
  | skill (key : String)
  | mcp (id : String)
  | tool (server : McpServer) (name : String)
  | github
  /-- Run in a sandbox that is at most so permissive. -/
  | sandbox (level : Value)

/-- The policy of an agent allows something. -/
def Allows (agent : Value) : Permission → Prop
  | .project id => allowed ((policy agent).get "projects") id
  | .skill key => allowed ((policy agent).get "skills") key
  | .mcp id => allowed ((policy agent).get "mcps") id
  | .tool server name =>
      allowed ((policy agent).get "mcps") server.id ∧
        exposes server (((policy agent).get "mcpTools").get server.id) name
  | .github => (policy agent).get "github" = .bool true
  | .sandbox level => sandboxRank level ≤ sandboxRank ((policy agent).get "sandbox")

/-! ### Validation -/

/-- A list of texts. -/
def isTexts : Value → Bool
  | .array items => items.all Value.isString
  | _ => false

/-- A list of texts, or null for everything. -/
def isScope (value : Value) : Bool := value.isNull || isTexts value

/-- A list of texts for each of some servers. -/
def isSelections : Value → Bool
  | .object members => decide (members.map Prod.fst).Nodup && members.all fun entry => isTexts entry.2
  | _ => false

/-- The schema of `access`, key by key. -/
def accessSchema : List (String × (Value → Bool)) :=
  [("nodes", isScope), ("projects", isScope), ("skills", isScope), ("mcps", isScope),
    ("mcpTools", isSelections), ("github", Value.isBool),
    ("sandbox", fun value =>
      value ∈ [.string "yolo", .string "workspace-write", .string "read-only"])]

/-- The access of an agent passes the schema: it may lack keys, or be missing, and keep keys
of older versions. The schema's lengths and formats, and what `validate_access` refuses,
exclude further agents. -/
def validated (agent : Value) : Bool :=
  match agent.get "access" with
  | .object members =>
      members.all fun entry => ((accessSchema.lookup entry.1).map fun check => check entry.2).getD true
  | _ => true

/-! ### The policy of a validated agent -/

/-- A key of the policy has its default, or what the agent has for it, or no server. -/
theorem get_policy_cases (agent : Value) (key : String) :
    (policy agent).get key = defaults.get key ∨
      (∃ members value, agent.get "access" = .object members ∧ (key, value) ∈ members ∧
        (policy agent).get key = value) ∨
      (key = "mcps" ∧ (policy agent).get key = .array []) := by
  have merged : (defaults.merge (agent.get "access")).get key = defaults.get key ∨
      ∃ members value, agent.get "access" = .object members ∧ (key, value) ∈ members ∧
        (defaults.merge (agent.get "access")).get key = value := by
    cases access : agent.get "access" with
    | object members =>
        rcases Value.lookup_merge key _ members with kept | ⟨value, member, found⟩
        · exact .inl (congrArg (fun found : Option Value => found.getD .null) kept)
        · exact .inr ⟨members, value, rfl, member, congrArg (fun found : Option Value => found.getD .null) found⟩
    | _ => exact .inl rfl
  unfold policy
  dsimp only
  by_cases legacy : legacyRestricted agent (defaults.merge (agent.get "access")) = true
  · rw [if_pos legacy]
    obtain ⟨members, isObject⟩ : ∃ members, defaults.merge (agent.get "access") = .object members := by
      cases agent.get "access" <;> exact ⟨_, rfl⟩
    have written : ((defaults.merge (agent.get "access")).set "mcps" (.array [])).get key =
        if key = "mcps" then .array [] else (defaults.merge (agent.get "access")).get key := by
      rw [isObject]
      show ((Value.setMember "mcps" (.array []) members).lookup key).getD .null = _
      rw [Value.lookup_setMember]
      by_cases same : key = "mcps"
      · rw [if_pos same, if_pos same]
        rfl
      · rw [if_neg same, if_neg same]
        rfl
    rw [written]
    by_cases same : key = "mcps"
    · rw [if_pos same]
      exact .inr (.inr ⟨same, rfl⟩)
    · rw [if_neg same]
      exact merged.imp_right .inl
  · rw [if_neg legacy]
    exact merged.imp_right .inl

/-- The policy of a validated agent passes the check of each key. -/
theorem check_policy {agent : Value} (valid : validated agent) {key : String}
    {check : Value → Bool} (schema : accessSchema.lookup key = some check)
    (default : check (defaults.get key)) (none : key = "mcps" → check (.array [])) :
    check ((policy agent).get key) := by
  rcases get_policy_cases agent key with isDefault | ⟨members, value, access, member, same⟩ |
      ⟨isMcps, empty⟩
  · rw [isDefault]
    exact default
  · unfold validated at valid
    rw [access] at valid
    have checked := List.all_eq_true.mp valid (key, value) member
    rw [schema] at checked
    rw [same]
    exact checked
  · rw [empty]
    exact none isMcps

/-! ### Scopes -/

/-- A scope is within another when it lists only what that lists. -/
theorem within_iff {granted current : Value} :
    within granted current ↔ current = .null ∨
      ∃ items others, granted = .array items ∧ current = .array others ∧ items ⊆ others := by
  unfold within
  cases current with
  | null => simp [Value.isNull]
  | array others =>
      cases granted with
      | array items => simp [Value.isNull, Value.asArray, List.subset_def]
      | _ => simp [Value.isNull, Value.asArray]
  | _ => simp [Value.isNull, Value.asArray]

theorem within_refl {scope : Value} (isScope : isScope scope) : within scope scope := by
  rw [within_iff]
  cases scope with
  | null => exact .inl rfl
  | array items => exact .inr ⟨items, items, rfl, rfl, List.Subset.refl items⟩
  | _ => cases isScope

theorem within_trans {first second third : Value} (earlier : within first second)
    (later : within second third) : within first third := by
  rw [within_iff] at earlier later ⊢
  rcases later with everything | ⟨items, others, isItems, isOthers, inside⟩
  · exact .inl everything
  · rcases earlier with everything | ⟨least, same, isLeast, isSame, insideItems⟩
    · rw [everything] at isItems
      cases isItems
    · obtain rfl : same = items := Value.array.inj (isSame.symm.trans isItems)
      exact .inr ⟨least, others, isLeast, isOthers, fun _ held => inside (insideItems held)⟩

/-- What a scope allows, a scope around it allows. -/
theorem allowed_of_within {granted current : Value} (inside : within granted current) {id : String}
    (isAllowed : allowed granted id) : allowed current id := by
  rcases within_iff.mp inside with rfl | ⟨items, others, rfl, rfl, contained⟩
  · rfl
  · simp only [allowed, Value.isNull, Value.asArray, Option.map_some, Option.getD_some,
      Bool.false_or, decide_eq_true_eq] at isAllowed ⊢
    exact contained isAllowed

/-! ### Tools -/

/-- The selection that a policy has for a server is one of its members, or null. -/
theorem get_selection (selections : Value) (server : String) :
    selections.get server = .null ∨
      (server, selections.get server) ∈ selections.asObject.getD [] := by
  cases selections with
  | object members =>
      show (members.lookup server).getD .null = .null ∨
        (server, (members.lookup server).getD .null) ∈ members
      cases found : members.lookup server with
      | none => exact .inl rfl
      | some value => exact .inr (Value.mem_of_lookup found)
  | _ => exact .inl rfl

/-- The selections of a policy are within those of another, server by server. -/
def SelectionsWithin (granted current : Value) : Prop :=
  ∀ entry ∈ current.asObject.getD [], within (granted.get entry.1) entry.2

theorem SelectionsWithin.refl {selections : Value} (valid : isSelections selections) :
    SelectionsWithin selections selections := by
  intro entry member
  cases selections with
  | object members =>
      rw [isSelections, Bool.and_eq_true, decide_eq_true_eq, List.all_eq_true] at valid
      have found : (Value.object members).get entry.1 = entry.2 := by
        show (members.lookup entry.1).getD .null = entry.2
        rw [Value.lookup_of_mem valid.1 member]
        rfl
      rw [found]
      refine within_refl ?_
      unfold isScope
      rw [valid.2 entry member, Bool.or_true]
  | _ => cases valid

theorem SelectionsWithin.trans {first second third : Value}
    (earlier : SelectionsWithin first second) (later : SelectionsWithin second third) :
    SelectionsWithin first third := by
  intro entry member
  have inside := later entry member
  rcases get_selection second entry.1 with null | listed
  · -- Null stays within null only.
    rw [null] at inside
    rcases within_iff.mp inside with everything | ⟨items, others, impossible, _⟩
    · exact within_iff.mpr (.inl everything)
    · cases impossible
  · exact within_trans (earlier (entry.1, second.get entry.1) listed) inside

/-- A tool that one selection gives, a selection around it gives. -/
theorem SelectionsWithin.exposes {granted current : Value}
    (inside : SelectionsWithin granted current) {server : McpServer} {tool : String}
    (exposed : exposes server (granted.get server.id) tool) :
    exposes server (current.get server.id) tool := by
  -- A selection that is no list gives the enabled tools, and every selection gives only these.
  have enabled : ∀ tools ∈ server.enabledTools, tool ∈ tools := by
    intro tools isTools
    unfold Agents.exposes selectedTools at exposed
    split at exposed
    · exact exposed tools isTools
    · have selected := exposed _ rfl
      rw [isTools] at selected
      have passes := (List.mem_filter.mp selected).2
      simpa using passes
  have unrestricted : (current.get server.id).asArray = none →
      Agents.exposes server (current.get server.id) tool := by
    intro noList tools isTools
    unfold selectedTools at isTools
    rw [noList] at isTools
    exact enabled tools isTools
  rcases get_selection current server.id with null | listed
  · exact unrestricted (by rw [null]; rfl)
  · have selected : within (granted.get server.id) (current.get server.id) := inside _ listed
    rcases within_iff.mp selected with null | ⟨items, others, isItems, isOthers, contained⟩
    · exact unrestricted (by rw [null]; rfl)
    · rw [isItems] at exposed
      rw [isOthers]
      intro tools isTools
      obtain rfl := Option.some.inj isTools
      have selected := List.mem_filter.mp (exposed _ rfl)
      obtain ⟨item, isItem, isTool⟩ := List.mem_filterMap.mp selected.1
      exact List.mem_filter.mpr
        ⟨List.mem_filterMap.mpr ⟨item, contained isItem, isTool⟩, selected.2⟩

/-! ### The order -/

/-- What `covers` checks. -/
structure Covers (current granted : Value) : Prop where
  scopes : ∀ key ∈ ["projects", "skills", "mcps"],
    within ((policy granted).get key) ((policy current).get key)
  tools : SelectionsWithin ((policy granted).get "mcpTools") ((policy current).get "mcpTools")
  github : (policy granted).get "github" = .bool true → (policy current).get "github" = .bool true
  sandbox : sandboxRank ((policy granted).get "sandbox") ≤
    sandboxRank ((policy current).get "sandbox")

theorem covers_iff {current granted : Value} : covers current granted ↔ Covers current granted := by
  unfold covers policyCovers
  dsimp only
  rw [Bool.and_eq_true, Bool.and_eq_true, Bool.and_eq_true, List.all_eq_true, List.all_eq_true,
    Bool.or_eq_true, decide_eq_true_eq, decide_eq_true_eq, decide_eq_true_eq]
  constructor
  · rintro ⟨⟨⟨scopes, tools⟩, github⟩, sandbox⟩
    exact ⟨scopes, tools, fun granted => github.resolve_right (not_not.mpr granted), sandbox⟩
  · intro covers
    refine ⟨⟨⟨covers.scopes, covers.tools⟩, ?_⟩, covers.sandbox⟩
    by_cases granted : (policy granted).get "github" = .bool true
    · exact .inl (covers.github granted)
    · exact .inr granted

theorem Covers.refl {agent : Value} (valid : validated agent) : Covers agent agent := by
  refine ⟨fun key member => ?_, .refl ?_, id, Nat.le_refl _⟩
  · refine within_refl ?_
    have schema : accessSchema.lookup key = some isScope ∧ isScope (defaults.get key) := by
      simp only [List.mem_cons, List.not_mem_nil, or_false] at member
      rcases member with rfl | rfl | rfl
      · exact ⟨rfl, rfl⟩
      · exact ⟨rfl, rfl⟩
      · exact ⟨rfl, rfl⟩
    exact check_policy valid schema.1 schema.2 fun _ => rfl
  · refine check_policy valid rfl rfl fun impossible => ?_
    exact absurd impossible (by decide)

theorem Covers.trans {first second third : Value} (earlier : Covers first second)
    (later : Covers second third) : Covers first third where
  scopes key member := within_trans (later.scopes key member) (earlier.scopes key member)
  tools := later.tools.trans earlier.tools
  github granted := earlier.github (later.github granted)
  sandbox := Nat.le_trans later.sandbox earlier.sandbox

/-- What the granted policy allows, a policy that covers it allows. -/
theorem Covers.allows {current granted : Value} (covers : Covers current granted)
    {permission : Permission} (allows : Allows granted permission) : Allows current permission := by
  cases permission with
  | project id => exact allowed_of_within (covers.scopes "projects" (by decide)) allows
  | skill key => exact allowed_of_within (covers.scopes "skills" (by decide)) allows
  | mcp id => exact allowed_of_within (covers.scopes "mcps" (by decide)) allows
  | tool server name =>
      exact ⟨allowed_of_within (covers.scopes "mcps" (by decide)) allows.1,
        covers.tools.exposes allows.2⟩
  | github => exact covers.github allows
  | sandbox level => exact Nat.le_trans allows covers.sandbox

/-- `covers` is a sound order: what the second agent may do the first may do where the first
covers it, an agent whose access is valid covers itself, and covering is transitive. -/
theorem covers_order {first second third : Value} (valid : validated first) :
    (covers first second → ∀ permission, Allows second permission → Allows first permission) ∧
    covers first first ∧
    (covers first second → covers second third → covers first third) := by
  refine ⟨fun isCovered permission allows => ?_, covers_iff.mpr (.refl valid),
    fun earlier later => ?_⟩
  · exact (covers_iff.mp isCovered).allows allows
  · exact covers_iff.mpr ((covers_iff.mp earlier).trans (covers_iff.mp later))

/-- An agent with settings of its access. -/
def agentWith (access : List (String × Value)) : Value :=
  .object [("id", .string "agent"), ("access", .object access)]

/-- A policy that restricts everything, one that widens it, and a record from before
permissions for MCP servers existed. -/
theorem covers_order_sample :
    let granted := agentWith [("projects", .array [.string "a"]), ("mcps", .array [.string "m"]),
      ("github", .bool false), ("sandbox", .string "workspace-write")]
    let wider := agentWith [("projects", .array [.string "a", .string "b"]), ("mcps", .null),
      ("github", .bool false), ("maxResources", .null)]
    let legacy := agentWith [("projects", .array [.string "a"]), ("github", .bool false),
      ("sandbox", .string "read-only")]
    covers wider granted ∧ covers granted legacy ∧ Allows wider (.project "a") ∧
      covers wider wider ∧ covers wider legacy := by
  intro granted wider legacy
  obtain ⟨sound, covered, composes⟩ := @covers_order wider granted legacy (by decide +kernel)
  have widens : covers wider granted := by decide +kernel
  have narrows : covers granted legacy := by decide +kernel
  have granting : Allows granted (.project "a") := by
    show allowed _ _ = true
    decide +kernel
  exact ⟨widens, narrows, sound widens _ granting, covered, composes widens narrows⟩

end Cairn.Agents
